import WorldDoc.Proofs.Parse.Recovery

/-!
# Places in a document

What may come next in a document depends on where one is: behind a directive comes a name, behind a
key a colon, and so on. A `Place` says that much about the tokens read so far, and as lists lie only
within lists it is enough to know how many of them are open. `Place.next` is the place behind one
more token, if that token may stand there, and `Place.walk` goes on token by token.

The places are neither those of the grammar nor of the parser. They stand between the two: every
place can be left for the end of a document (`Place.exists_walk_top`), so tokens that can be walked
are the beginning of one, and a routine of the parser reports exactly where a walk comes to its end.
-/

namespace WorldDoc

open Parse (isNameToken)

/-- Where a beginning of a document ends. -/
inductive Place where
  /-- Between declarations. -/
  | top
  /-- Behind a directive. -/
  | name
  /-- Behind the name of a declaration. -/
  | brace
  /-- Within a declaration, where a field may begin. -/
  | body
  /-- Behind the value of a field. -/
  | behindField
  /-- Behind the key of a field. -/
  | colon
  /-- Behind the colon of a field. -/
  | value
  /-- In a list that lies within so many others, where a value may begin. -/
  | item (outer : Nat)
  /-- Behind a value in a list that lies within so many others. -/
  | behindItem (outer : Nat)
  deriving DecidableEq, Repr

namespace Place

/-- The place behind a value that lies within so many lists. -/
def behind : Nat → Place
  | 0 => .behindField
  | outer + 1 => .behindItem outer

/-- The place behind the first token of a value that lies within so many lists. -/
def startValue (limit outer : Nat) (t : Token) : Option Place :=
  if t.kind = .lbracket then if outer < limit then some (.item outer) else none
  else if (ValueKind.ofToken? t.kind).isSome then some (behind outer)
  else none

/-- The place behind a token where a field may begin or the declaration end. -/
def startField (t : Token) : Option Place :=
  if isNameToken t.kind then some .colon
  else if t.kind = .rbrace then some .top
  else none

/-- The place behind a token, if that token may stand here and lists are nested at most `limit`
deep. -/
def next (limit : Nat) (p : Place) (t : Token) : Option Place :=
  match p with
  | .top => if t.isKnownDirective then some .name else none
  | .name => if isNameToken t.kind then some .brace else none
  | .brace => if t.kind = .lbrace then some .body else none
  | .body => startField t
  | .behindField => if t.kind = .comma then some .body else startField t
  | .colon => if t.kind = .colon then some .value else none
  | .value => startValue limit 0 t
  | .item outer =>
    if t.kind = .rbracket then some (behind outer) else startValue limit (outer + 1) t
  | .behindItem outer =>
    if t.kind = .comma then some (.item outer)
    else if t.kind = .rbracket then some (behind outer)
    else none

/-- The place behind some tokens. -/
def walk (limit : Nat) (p : Place) (ts : List Token) : Option Place := ts.foldlM (next limit) p

variable {limit outer : Nat} {p q : Place} {t : Token} {ts us : List Token}

@[simp] theorem walk_nil (limit : Nat) (p : Place) : walk limit p [] = some p := rfl

/-- A walk goes to the next place and on from there. -/
theorem walk_cons : walk limit p (t :: ts) = (p.next limit t).bind fun q => walk limit q ts := rfl

/-- A walk over some tokens and more goes on from where it came to. -/
theorem walk_append :
    walk limit p (ts ++ us) = (walk limit p ts).bind fun q => walk limit q us :=
  List.foldlM_append

/-- Every beginning of a walk is a walk. -/
theorem exists_walk_of_isPrefix (h : ts <+: us) (hwalk : (walk limit p us).isSome) :
    ∃ q, walk limit p ts = some q := by
  obtain ⟨later, rfl⟩ := h
  rw [walk_append] at hwalk
  exact Option.isSome_iff_exists.mp (Option.isSome_of_isSome_bind hwalk)

/-- No token marks the end of the file within a walk. -/
theorem kind_ne_eof_of_next (h : p.next limit t = some q) : t.kind ≠ .eof := by
  intro heof
  cases p <;> simp [next, startField, startValue, isNameToken, ValueKind.ofToken?,
    Token.isKnownDirective, heof] at h

/-- A walk stays before the end of the file. -/
theorem kind_ne_eof_of_walk (h : walk limit p ts = some q) : ∀ t ∈ ts, t.kind ≠ .eof := by
  induction ts generalizing p with
  | nil => exact List.forall_mem_nil _
  | cons t ts ih =>
    obtain ⟨r, hr, hwalk⟩ := Option.bind_eq_some_iff.mp (walk_cons ▸ h)
    exact List.forall_mem_cons.mpr ⟨kind_ne_eof_of_next hr, ih hwalk⟩

/-! ## The way to the end of a document -/

/-- Some token of a kind. -/
def sample (kind : TokenKind) : Token := ⟨⟨kind, [], none⟩, 0⟩

/-- So many brackets and a brace close all that is open around a value. -/
def closing (outer : Nat) : List Token :=
  List.replicate outer (sample .rbracket) ++ [sample .rbrace]

/-- Behind a value these tokens lead out of all lists and out of the declaration. -/
theorem walk_closing (limit outer : Nat) :
    walk limit (behind outer) (closing outer) = some .top := by
  induction outer with
  | zero => rfl
  | succ outer ih => exact ih

/-- Every place can be left for the end of a document. -/
theorem exists_walk_top (limit : Nat) (p : Place) : ∃ ts, walk limit p ts = some .top := by
  cases p with
  | top => exact ⟨[], rfl⟩
  | name => exact ⟨[sample .identifier, sample .lbrace, sample .rbrace], rfl⟩
  | brace => exact ⟨[sample .lbrace, sample .rbrace], rfl⟩
  | body => exact ⟨[sample .rbrace], rfl⟩
  | behindField => exact ⟨[sample .rbrace], rfl⟩
  | colon => exact ⟨[sample .colon, sample .identifier, sample .rbrace], rfl⟩
  | value => exact ⟨[sample .identifier, sample .rbrace], rfl⟩
  | item outer => exact ⟨sample .rbracket :: closing outer, walk_closing limit outer⟩
  | behindItem outer => exact ⟨closing (outer + 1), walk_closing limit (outer + 1)⟩

end Place

end WorldDoc
