import WorldDoc.Failure

/-!
# The log

What happens on the way from a text to a world is recorded as events, in order. An operation that
records events yields them beside its outcome, whether it succeeds or fails.
-/

namespace WorldDoc

/-- Something worth recording. -/
inductive LogEvent where
  | parsed (characters declarations diagnostics : Nat)
  | ignoredNode (kind : SyntaxKind)
  | fieldOverwritten (kind : CitizenKind) (name key : String)
  | citizenBuilt (kind : CitizenKind) (name : String) (fields : Nat)
  | citizensBuilt (count : Nat)
  | declarationOverwritten (kind : CitizenKind) (name : String)
  | worldAssembled (citizens : Nat)
  | rulePassed (rule : String)
  | ruleFailed (rule message : String)
  | checkFailed (code message : String)
  | checkFinished (path : String)
  deriving DecidableEq, Repr

namespace LogEvent

/-- The part of the program that an event is attributed to in the log. -/
def site : LogEvent → String
  | parsed .. => "cldpy.parser.cld:parse"
  | ignoredNode .. | citizensBuilt .. => "cldpy.ast.build:build_citizens"
  | fieldOverwritten .. | citizenBuilt .. => "cldpy.ast.build:build_citizen"
  | declarationOverwritten .. | worldAssembled .. => "cldpy.world.assemble:assemble_world"
  | rulePassed .. | ruleFailed .. => "cldpy.validate.runner:validate_world"
  | checkFailed .. => "cldpy.pipeline.entrypoints:run_check"
  | checkFinished .. => "cldpy.cli:_check"

/-- The wording of an event. -/
def message : LogEvent → String
  | parsed characters declarations diagnostics =>
    s!"parsed {characters} characters: {declarations} declarations, {diagnostics} diagnostics"
  | ignoredNode kind => s!"ignoring top-level {kind.label} node"
  | fieldOverwritten kind name key =>
    s!"{kind.word} `{name}`: field `{key}` overwritten by later entry"
  | citizenBuilt kind name fields => s!"built {kind.word}: {name} with {fields} fields"
  | citizensBuilt count => s!"built {count} citizens"
  | declarationOverwritten kind name => s!"{kind.word} `{name}` overwritten by later declaration"
  | worldAssembled citizens => s!"assembled world with {citizens} citizens"
  | rulePassed rule => s!"rule {rule} passed"
  | ruleFailed rule message => s!"rule {rule} failed: {message}"
  | checkFailed code message => s!"check failed with {code}: {message}"
  | checkFinished path => s!"check of {path} finished without errors"

/-- The level of every event. -/
def level : String := "DEBUG"

/-- An event as a line of the log, with the time of day in front. -/
def line (time : String) (e : LogEvent) : String := s!"{time} | {level}   | {e.site} | {e.message}"

end LogEvent

/-- An outcome together with the events on the way to it. -/
structure Traced (ε α : Type) where
  events : List LogEvent
  outcome : Except ε α

namespace Traced

variable {ε α β : Type}

/-- A success without events. -/
def pure (a : α) : Traced ε α := ⟨[], .ok a⟩

/-- Goes on after a success; what is recorded adds up. A failure keeps what was recorded before. -/
def bind (x : Traced ε α) (f : α → Traced ε β) : Traced ε β :=
  match x.outcome with
  | .ok a =>
    let y := f a
    ⟨x.events ++ y.events, y.outcome⟩
  | .error e => ⟨x.events, .error e⟩

instance : Monad (Traced ε) where
  pure := pure
  bind := bind

/-- An outcome without events. -/
def ofExcept (r : Except ε α) : Traced ε α := ⟨[], r⟩

/-- A failure without further events. -/
def fail (e : ε) : Traced ε α := ⟨[], .error e⟩

/-- Records an event. -/
def log (e : LogEvent) : Traced ε Unit := ⟨[e], .ok ()⟩

/-- Records an event if a condition holds. -/
def logIf (condition : Bool) (e : LogEvent) : Traced ε Unit :=
  if condition then log e else pure ()

end Traced

end WorldDoc
