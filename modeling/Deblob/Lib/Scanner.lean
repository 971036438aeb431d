import Deblob.Lib.Parser

/-!
# Scanners at a position

A scanner reads a slice of bytes by index. An index outside of the slice and a loop that does not
end in the rounds it is given are faults of their own. A scanner that tracks a parser over the bytes
that are left has neither: it is at the position of those bytes, and fails only with the parser.
-/

namespace Deblob.Lib

/-- What ends a run early. -/
inductive Fault (Err : Type) where
  | outOfBounds
  | endless
  | error (err : Err)

/-- A scanner with error type `Err`, whose state is a position. -/
abbrev Scanner (Err α : Type) := StateT ℕ (Except (Fault Err)) α

namespace Scanner

variable {Err α β σ : Type} (bytes : List UInt8)

def peek : Scanner Err (Option UInt8) := fun pos ↦ .ok (bytes[pos]?, pos)

def bump : Scanner Err (Option UInt8) := do
  let next ← peek bytes
  if next.isSome then
    modify (· + 1)
  return next

def fail (err : Err) : Scanner Err α := throw (.error err)

def require (condition : Prop) [Decidable condition] (err : Err) : Scanner Err Unit :=
  if condition then pure () else fail err

/-- The bytes from one index up to another one. -/
def slice (start stop : ℕ) : Scanner Err (List UInt8) :=
  if start ≤ stop ∧ stop ≤ bytes.length then pure ((bytes.take stop).drop start)
  else throw .outOfBounds

/-- A loop that is stopped after so many rounds. -/
def loop (body : σ → Scanner Err (σ ⊕ α)) : ℕ → σ → Scanner Err α
  | 0, _ => throw .endless
  | rounds + 1, state => do
    match ← body state with
    | .inl state => loop body rounds state
    | .inr result => pure result

/-- Step over a byte if it is to keep. -/
def stepOver (keep : UInt8 → Bool) (_ : Unit) : Scanner Err (Unit ⊕ Unit) := do
  let next ← peek bytes
  if next.any keep then
    modify (· + 1)
    return .inl ()
  else return .inr ()

/-- Step over bytes as long as they are to keep. -/
def skipWhile (keep : UInt8 → Bool) (rounds : ℕ) : Scanner Err Unit :=
  loop (stepOver bytes keep) rounds ()

/-! ## Tracking -/

/-- Where the bytes that are left begin. -/
def position (rest : List UInt8) : ℕ := bytes.length - rest.length

/-- A scanner's outcome is the parser's, at the position of the bytes that are left. -/
def Agrees (outcome : Except (Fault Err) (α × ℕ)) : Except Err (α × List UInt8) → Prop
  | .error err => outcome = .error (.error err)
  | .ok (value, left) => left <:+ bytes ∧ outcome = .ok (value, position bytes left)

def Tracks (scanner : Scanner Err α) (parser : Parser Err α) : Prop :=
  ∀ rest, rest <:+ bytes → Agrees bytes (scanner (position bytes rest)) (parser rest)

variable {bytes}

theorem getElem?_position {rest : List UInt8} (hrest : rest <:+ bytes) :
    bytes[position bytes rest]? = rest.head? := by
  obtain ⟨front, rfl⟩ := hrest
  rw [position, List.length_append, Nat.add_sub_cancel, List.getElem?_append_right le_rfl,
    Nat.sub_self, List.head?_eq_getElem?]

theorem position_tail {byte : UInt8} {rest : List UInt8} (hrest : byte :: rest <:+ bytes) :
    position bytes rest = position bytes (byte :: rest) + 1 := by
  have hlength := hrest.length_le
  rw [List.length_cons] at hlength
  rw [position, position, List.length_cons]
  omega

theorem drop_position {rest : List UInt8} (hrest : rest <:+ bytes) :
    bytes.drop (position bytes rest) = rest := by
  obtain ⟨front, rfl⟩ := hrest
  rw [position, List.length_append, Nat.add_sub_cancel, List.drop_left]

theorem tracks_pure (value : α) : Tracks bytes (pure value : Scanner Err α) (pure value) :=
  fun _ hrest ↦ ⟨hrest, rfl⟩

theorem tracks_fail (err : Err) : Tracks bytes (fail err : Scanner Err α) (throw err) :=
  fun _ _ ↦ rfl

theorem tracks_require (condition : Prop) [Decidable condition] (err : Err) :
    Tracks bytes (require condition err) (Parser.require condition err) := by
  unfold require Parser.require
  split_ifs
  · exact tracks_pure ()
  · exact tracks_fail err

theorem tracks_peek : Tracks bytes (peek bytes : Scanner Err _) Parser.peek := by
  intro rest hrest
  refine ⟨hrest, ?_⟩
  rw [← getElem?_position hrest]
  rfl

theorem Tracks.bind {first : Scanner Err α} {next : α → Scanner Err β} {parser : Parser Err α}
    {following : α → Parser Err β} (hfirst : Tracks bytes first parser)
    (hnext : ∀ value, Tracks bytes (next value) (following value)) :
    Tracks bytes (first >>= next) (parser >>= following) := by
  intro rest hrest
  have hagrees := hfirst rest hrest
  change Agrees bytes (first (position bytes rest) >>= fun pair ↦ next pair.1 pair.2)
    (parser rest >>= fun pair ↦ following pair.1 pair.2)
  cases hrun : parser rest with
  | error err =>
      rw [hrun] at hagrees
      rw [show first (position bytes rest) = _ from hagrees]
      rfl
  | ok pair =>
      obtain ⟨value, left⟩ := pair
      rw [hrun] at hagrees
      obtain ⟨hleft, hpos⟩ := hagrees
      rw [hpos]
      exact hnext value left hleft

theorem bump_eq (pos : ℕ) :
    (bump bytes : Scanner Err _) pos =
      .ok (bytes[pos]?, if bytes[pos]?.isSome then pos + 1 else pos) := by
  cases hnext : bytes[pos]? <;>
    simp [bump, peek, hnext, bind, StateT.bind, Except.bind, pure, Except.pure, modify,
      modifyGet, MonadStateOf.modifyGet, StateT.modifyGet] <;> rfl

theorem stepOver_eq (keep : UInt8 → Bool) (pos : ℕ) :
    (stepOver bytes keep () : Scanner Err _) pos =
      .ok (if bytes[pos]?.any keep then (.inl (), pos + 1) else (.inr (), pos)) := by
  cases hkeep : bytes[pos]?.any keep <;>
    simp [stepOver, peek, hkeep, bind, StateT.bind, Except.bind, pure, Except.pure,
      modify, modifyGet, MonadStateOf.modifyGet, StateT.modifyGet] <;> rfl

theorem tracks_bump : Tracks bytes (bump bytes : Scanner Err _) Parser.bump := by
  intro rest hrest
  rw [bump_eq, getElem?_position hrest]
  cases rest with
  | nil => exact ⟨hrest, rfl⟩
  | cons byte rest =>
      refine ⟨(List.suffix_cons byte rest).trans hrest, ?_⟩
      rw [List.tail_cons, position_tail hrest]
      rfl

theorem tracks_skipWhile (keep : UInt8 → Bool) {rounds : ℕ} (hrounds : bytes.length < rounds) :
    Tracks bytes (skipWhile bytes keep rounds : Scanner Err Unit) (Parser.skipWhile keep) := by
  intro rest hrest
  refine ⟨(List.dropWhile_suffix keep).trans hrest, ?_⟩
  have hlength := lt_of_le_of_lt hrest.length_le hrounds
  clear hrounds
  unfold skipWhile
  induction rounds generalizing rest with
  | zero => exact absurd hlength (Nat.not_lt_zero _)
  | succ rounds ih =>
      change (stepOver bytes keep () (position bytes rest) >>= _) = _
      rw [stepOver_eq, getElem?_position hrest]
      cases rest with
      | nil => rfl
      | cons byte rest =>
          rw [List.head?_cons, Option.any_some]
          by_cases hkeep : keep byte
          · rw [if_pos hkeep, List.dropWhile_cons_of_pos hkeep, ← position_tail hrest]
            exact ih rest ((List.suffix_cons byte rest).trans hrest)
              (Nat.lt_of_succ_lt_succ hlength)
          · rw [if_neg hkeep, List.dropWhile_cons_of_neg hkeep]
            rfl

/-- A loop whose rounds consume bytes ends in as many rounds as there are bytes. -/
theorem tracks_loop [Inhabited Err] {body : σ → Scanner Err (σ ⊕ α)}
    {parser : σ → Parser Err (σ ⊕ α)} (hconsumes : ∀ state, Parser.Consumes (parser state))
    (hbody : ∀ state, Tracks bytes (body state) (parser state)) {rounds : ℕ}
    (hrounds : bytes.length < rounds) (state : σ) :
    Tracks bytes (loop body rounds state) (Parser.loop parser state) := by
  intro rest hrest
  have hlength := lt_of_le_of_lt hrest.length_le hrounds
  clear hrounds
  induction rounds generalizing state rest with
  | zero => exact absurd hlength (Nat.not_lt_zero _)
  | succ rounds ih =>
      rw [Parser.loop_eq hconsumes]
      have hagrees := hbody state rest hrest
      change Agrees bytes (body state (position bytes rest) >>= _) (parser state rest >>= _)
      cases hrun : parser state rest with
      | error err =>
          rw [hrun] at hagrees
          rw [show body state (position bytes rest) = _ from hagrees]
          rfl
      | ok pair =>
          obtain ⟨round, left⟩ := pair
          rw [hrun] at hagrees
          obtain ⟨hleft, hpos⟩ := hagrees
          have hshorter := hconsumes state rest round left hrun
          rw [hpos]
          cases round with
          | inl next => exact ih next left hleft (by omega)
          | inr result => exact ⟨hleft, rfl⟩

/-- The bytes from one position to a later one. -/
theorem slice_position {rest left : List UInt8} (hrest : rest <:+ bytes) (hleft : left <:+ bytes)
    (hlength : left.length ≤ rest.length) (pos : ℕ) :
    (slice bytes (position bytes rest) (position bytes left) : Scanner Err _) pos =
      .ok (rest.take (rest.length - left.length), pos) := by
  have hrestLength := hrest.length_le
  have hleftLength := hleft.length_le
  unfold slice
  rw [if_pos ⟨Nat.sub_le_sub_left hlength _, Nat.sub_le _ _⟩, List.drop_take, drop_position hrest]
  have hcount : position bytes left - position bytes rest = rest.length - left.length := by
    rw [position, position]
    omega
  rw [hcount]
  rfl

/-- The slice a scanner steps over is what a parser takes off the bytes that are left. -/
theorem Tracks.slice {scanner : Scanner Err Unit} {parser : Parser Err Unit}
    (htracks : Tracks bytes scanner parser) (hshrinks : Parser.Shrinks parser) :
    Tracks bytes (do let start ← get; scanner; let pos ← get; Scanner.slice bytes start pos)
      (do
        let start ← get
        parser
        let left ← get
        return start.take (start.length - left.length)) := by
  intro rest hrest
  have hagrees := htracks rest hrest
  change Agrees bytes (scanner (position bytes rest) >>= _) (parser rest >>= _)
  cases hrun : parser rest with
  | error err =>
      rw [hrun] at hagrees
      rw [show scanner (position bytes rest) = _ from hagrees]
      rfl
  | ok pair =>
      obtain ⟨⟨⟩, left⟩ := pair
      rw [hrun] at hagrees
      obtain ⟨hleft, hpos⟩ := hagrees
      rw [hpos]
      exact ⟨hleft, slice_position hrest hleft (hshrinks _ _ _ hrun) _⟩

theorem slice_rest {rest : List UInt8} (hrest : rest <:+ bytes) (pos : ℕ) :
    (slice bytes (position bytes rest) bytes.length : Scanner Err _) pos = .ok (rest, pos) := by
  have hslice : (slice bytes (position bytes rest) (position bytes []) : Scanner Err _) pos = _ :=
    slice_position hrest List.nil_suffix (Nat.zero_le _) pos
  rwa [List.length_nil, Nat.sub_zero, List.take_length] at hslice

/-- A run from the first byte on has the parser's result on the whole slice. -/
theorem Tracks.run' {scanner : Scanner Err α} {parser : Parser Err α}
    (htracks : Tracks bytes scanner parser) :
    StateT.run' scanner 0 = (StateT.run' parser bytes).mapError Fault.error := by
  have hagrees := htracks bytes (List.suffix_refl _)
  rw [show position bytes bytes = 0 from Nat.sub_self _] at hagrees
  change Prod.fst <$> scanner 0 = (Prod.fst <$> parser bytes).mapError Fault.error
  cases hrun : parser bytes with
  | error err =>
      rw [hrun] at hagrees
      rw [show scanner 0 = _ from hagrees]
      rfl
  | ok pair =>
      obtain ⟨value, left⟩ := pair
      rw [hrun] at hagrees
      rw [hagrees.2]
      rfl

end Scanner

end Deblob.Lib
