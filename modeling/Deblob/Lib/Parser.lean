import Deblob.Lib.Except
import Mathlib.Algebra.Order.Ring.Nat
import Mathlib.Data.List.DropRight

/-!
# Byte parsers

A parser is a fallible state transformer on the bytes that are left. `loop` is the unbounded loop of
an imperative parser. A body that consumes a byte in every round makes it total, and then it
satisfies its own unrolling. `Restricts` compares two parsers of one language: the second one
accepts what the first one does, less the results that a relation leaves without a counterpart.
-/

namespace Deblob.Lib

/-- A parser with error type `Err` over the remaining bytes. -/
abbrev Parser (Err α : Type) := StateT (List UInt8) (Except Err) α

namespace Parser

variable {Err α β γ δ σ τ : Type}

def peek : Parser Err (Option UInt8) := fun rest ↦ .ok (rest.head?, rest)

def bump : Parser Err (Option UInt8) := fun rest ↦ .ok (rest.head?, rest.tail)

def skipWhile (keep : UInt8 → Bool) : Parser Err Unit := fun rest ↦ .ok ((), rest.dropWhile keep)

def require (condition : Prop) [Decidable condition] (err : Err) : Parser Err Unit :=
  if condition then pure () else throw err

/-- At most `rounds` rounds of a body that goes on with `inl` and breaks with `inr`. -/
def loopFor [Inhabited Err] (body : σ → Parser Err (σ ⊕ α)) : ℕ → σ → Parser Err α
  | 0, _ => throw default
  | rounds + 1, state => do
    match ← body state with
    | .inl state => loopFor body rounds state
    | .inr result => pure result

/-- The loop that runs `body` until it breaks. -/
def loop [Inhabited Err] (body : σ → Parser Err (σ ⊕ α)) (state : σ) : Parser Err α :=
  fun rest ↦ loopFor body (rest.length + 1) state rest

/-- What a round leads to: more rounds, or the end of the loop. -/
def afterRound [Inhabited Err] (body : σ → Parser Err (σ ⊕ α)) : σ ⊕ α → Parser Err α
  | .inl state => loop body state
  | .inr result => pure result

theorem bind_eq_ok {first : Parser Err α} {next : α → Parser Err β} {rest left : List UInt8}
    {result : β} :
    (first >>= next) rest = .ok (result, left) ↔
      ∃ value mid, first rest = .ok (value, mid) ∧ next value mid = .ok (result, left) := by
  change (first rest >>= fun pair ↦ next pair.1 pair.2) = _ ↔ _
  rw [Except.bind_eq_ok]
  exact Prod.exists

theorem pure_eq_ok {value result : α} {rest left : List UInt8} :
    (pure value : Parser Err α) rest = .ok (result, left) ↔ value = result ∧ rest = left := by
  change Except.ok (value, rest) = _ ↔ _
  simp

theorem throw_ne_ok {err : Err} {rest left : List UInt8} {result : α} :
    (throw err : Parser Err α) rest ≠ .ok (result, left) := by
  change Except.error err ≠ _
  simp

theorem bump_eq_ok {rest left : List UInt8} {next : Option UInt8} :
    (bump : Parser Err _) rest = .ok (next, left) ↔ rest.head? = next ∧ rest.tail = left := by
  simp [bump]

theorem require_eq_ok {condition : Prop} [Decidable condition] {err : Err}
    {rest left : List UInt8} {result : Unit} :
    require condition err rest = .ok (result, left) ↔ condition ∧ rest = left := by
  unfold require
  split_ifs with hcondition
  · simp [pure_eq_ok, hcondition]
  · simp [throw_ne_ok, hcondition]

theorem skipWhile_bind_skipWhile (keep : UInt8 → Bool) (next : Unit → Parser Err α) :
    (skipWhile keep >>= fun _ ↦ skipWhile keep >>= next) = skipWhile keep >>= next := by
  funext rest
  change next () ((rest.dropWhile keep).dropWhile keep) = next () (rest.dropWhile keep)
  rw [List.dropWhile_idempotent]

/-! ## Consumption -/

/-- A successful run leaves no more bytes than it found. -/
def Shrinks (parser : Parser Err α) : Prop :=
  ∀ rest result left, parser rest = .ok (result, left) → left.length ≤ rest.length

/-- A successful run takes at least one byte. -/
def Consumes (parser : Parser Err α) : Prop :=
  ∀ rest result left, parser rest = .ok (result, left) → left.length < rest.length

theorem Consumes.shrinks {parser : Parser Err α} (hparser : Consumes parser) : Shrinks parser :=
  fun rest result left hrun ↦ (hparser rest result left hrun).le

theorem shrinks_pure (value : α) : Shrinks (pure value : Parser Err α) := by
  intro rest result left hrun
  obtain ⟨-, rfl⟩ := pure_eq_ok.mp hrun
  exact le_rfl

theorem consumes_throw (err : Err) : Consumes (throw err : Parser Err α) :=
  fun _ _ _ hrun ↦ absurd hrun throw_ne_ok

theorem shrinks_peek : Shrinks (peek : Parser Err _) := by
  rintro rest result left ⟨⟩
  exact le_rfl

theorem shrinks_bump : Shrinks (bump : Parser Err _) := by
  rintro rest result left ⟨⟩
  simp

theorem shrinks_skipWhile (keep : UInt8 → Bool) : Shrinks (skipWhile keep : Parser Err _) := by
  rintro rest result left ⟨⟩
  exact (List.dropWhile_sublist _).length_le

theorem shrinks_require (condition : Prop) [Decidable condition] (err : Err) :
    Shrinks (require condition err) := by
  intro rest result left hrun
  obtain ⟨-, rfl⟩ := require_eq_ok.mp hrun
  exact le_rfl

section Bind

variable {first : Parser Err α} {next : α → Parser Err β}

theorem Shrinks.bind (hfirst : Shrinks first) (hnext : ∀ value, Shrinks (next value)) :
    Shrinks (first >>= next) := by
  intro rest result left hrun
  obtain ⟨value, mid, hvalue, hresult⟩ := bind_eq_ok.mp hrun
  exact (hnext value _ _ _ hresult).trans (hfirst _ _ _ hvalue)

theorem Consumes.bind (hfirst : Consumes first) (hnext : ∀ value, Shrinks (next value)) :
    Consumes (first >>= next) := by
  intro rest result left hrun
  obtain ⟨value, mid, hvalue, hresult⟩ := bind_eq_ok.mp hrun
  exact (hnext value _ _ _ hresult).trans_lt (hfirst _ _ _ hvalue)

theorem Shrinks.bind_consumes (hfirst : Shrinks first) (hnext : ∀ value, Consumes (next value)) :
    Consumes (first >>= next) := by
  intro rest result left hrun
  obtain ⟨value, mid, hvalue, hresult⟩ := bind_eq_ok.mp hrun
  exact (hnext value _ _ _ hresult).trans_le (hfirst _ _ _ hvalue)

/-- Reading a byte consumes it, unless the input has ended. -/
theorem consumes_bump_bind {next : Option UInt8 → Parser Err β}
    (hnone : ∀ result left, next none [] ≠ .ok (result, left))
    (hsome : ∀ byte, Shrinks (next (some byte))) : Consumes (bump >>= next) := by
  intro rest result left hrun
  obtain ⟨value, mid, hvalue, hresult⟩ := bind_eq_ok.mp hrun
  obtain ⟨rfl, rfl⟩ := bump_eq_ok.mp hvalue
  cases rest with
  | nil => exact absurd hresult (hnone _ _)
  | cons byte rest => exact Nat.lt_succ_of_le (hsome byte _ _ _ hresult)

end Bind

section Loop

variable [Inhabited Err] {body : σ → Parser Err (σ ⊕ α)}

/-- The rounds a loop is given do not matter once they outnumber the bytes. -/
theorem loopFor_congr (hbody : ∀ state, Consumes (body state)) {rounds more : ℕ} {state : σ}
    {rest : List UInt8} (hrounds : rest.length < rounds) (hmore : rest.length < more) :
    loopFor body rounds state rest = loopFor body more state rest := by
  induction rounds generalizing more state rest with
  | zero => omega
  | succ rounds ih =>
      obtain _ | more := more
      · omega
      change (body state rest >>= _) = (body state rest >>= _)
      cases hround : body state rest with
      | error err => rfl
      | ok pair =>
          obtain ⟨result, left⟩ := pair
          have hleft := hbody state rest result left hround
          cases result with
          | inl state => exact ih (by omega) (by omega)
          | inr result => rfl

/-- A loop runs its body once and goes on from there: it never runs out of rounds. -/
theorem loop_eq (hbody : ∀ state, Consumes (body state)) (state : σ) :
    loop body state = body state >>= afterRound body := by
  funext rest
  change (body state rest >>= _) = (body state rest >>= _)
  cases hround : body state rest with
  | error err => rfl
  | ok pair =>
      obtain ⟨result, left⟩ := pair
      have hleft := hbody state rest result left hround
      cases result with
      | inl state => exact loopFor_congr hbody hleft (Nat.lt_succ_self _)
      | inr result => rfl

theorem loop_of_inl (hbody : ∀ state, Consumes (body state)) {state next : σ}
    {rest left : List UInt8} (hround : body state rest = .ok (.inl next, left)) :
    loop body state rest = loop body next left := by
  rw [loop_eq hbody]
  change (body state rest >>= _) = _
  rw [hround]
  rfl

theorem loop_of_inr (hbody : ∀ state, Consumes (body state)) {state : σ} {result : α}
    {rest left : List UInt8} (hround : body state rest = .ok (.inr result, left)) :
    loop body state rest = .ok (result, left) := by
  rw [loop_eq hbody]
  change (body state rest >>= _) = _
  rw [hround]
  rfl

/-- What holds of a last round, and of a loop if it holds of the rounds behind its first one. -/
theorem loop_induct {motive : σ → List UInt8 → α → List UInt8 → Prop}
    (hstop : ∀ state rest result left, body state rest = .ok (.inr result, left) →
      motive state rest result left)
    (hnext : ∀ state rest next mid result left, body state rest = .ok (.inl next, mid) →
      motive next mid result left → motive state rest result left)
    {state : σ} {rest left : List UInt8} {result : α}
    (hrun : loop body state rest = .ok (result, left)) : motive state rest result left := by
  unfold loop at hrun
  generalize rest.length + 1 = rounds at hrun
  induction rounds generalizing state rest with
  | zero => exact absurd hrun throw_ne_ok
  | succ rounds ih =>
      obtain ⟨round, mid, hround, hrest⟩ := bind_eq_ok.mp hrun
      cases round with
      | inl next => exact hnext _ _ _ _ _ _ hround (ih hrest)
      | inr value =>
          obtain ⟨rfl, rfl⟩ := pure_eq_ok.mp hrest
          exact hstop _ _ _ _ hround

theorem consumes_loop (hbody : ∀ state, Consumes (body state)) (state : σ) :
    Consumes (loop body state) := by
  intro rest result left hrun
  refine loop_induct (motive := fun _ rest _ left ↦ left.length < rest.length) ?_ ?_ hrun
  · exact fun state rest _ left hround ↦ hbody state rest _ left hround
  · exact fun state rest _ mid _ left hround hleft ↦ hleft.trans (hbody state rest _ mid hround)

end Loop

/-! ## Restrictions -/

/-- No result of a successful run is related to anything. -/
def Rejects (related : α → β → Prop) (parser : Parser Err α) : Prop :=
  ∀ rest result left, parser rest = .ok (result, left) → ∀ other, ¬ related result other

/-- `narrow` accepts what `wide` does, with a related result, except where the result of `wide` is
related to nothing. -/
structure Restricts (related : α → β → Prop) (wide : Parser Err α) (narrow : Parser Err β) :
    Prop where
  sound : ∀ rest other left, narrow rest = .ok (other, left) →
    ∃ result, wide rest = .ok (result, left) ∧ related result other
  complete : ∀ rest result left, wide rest = .ok (result, left) → (∃ other, related result other) →
    ∃ other, narrow rest = .ok (other, left) ∧ related result other

theorem Rejects.pure {related : α → β → Prop} {value : α}
    (hvalue : ∀ other, ¬ related value other) :
    Rejects related (pure value : Parser Err α) := by
  intro rest result left hrun
  obtain ⟨rfl, -⟩ := pure_eq_ok.mp hrun
  exact hvalue

theorem rejects_throw (related : α → β → Prop) (err : Err) :
    Rejects related (throw err : Parser Err α) :=
  fun _ _ _ hrun ↦ absurd hrun throw_ne_ok

theorem Rejects.bind {related : β → γ → Prop} {next : α → Parser Err β}
    (hnext : ∀ value, Rejects related (next value)) (first : Parser Err α) :
    Rejects related (first >>= next) := by
  intro rest result left hrun
  obtain ⟨value, mid, -, hresult⟩ := bind_eq_ok.mp hrun
  exact hnext value _ _ _ hresult

/-- A first step that has lost its counterpart, with continuations that do not regain one. -/
theorem Rejects.bind_lost {first : α → β → Prop} {related : γ → δ → Prop} {parser : Parser Err α}
    {next : α → Parser Err γ} (hfirst : Rejects first parser)
    (hnext : ∀ value, (∀ other, ¬ first value other) → Rejects related (next value)) :
    Rejects related (parser >>= next) := by
  intro rest result left hrun
  obtain ⟨value, mid, hvalue, hresult⟩ := bind_eq_ok.mp hrun
  exact hnext value (hfirst _ _ _ hvalue) _ _ _ hresult

namespace Restricts

theorem refl (parser : Parser Err α) : Restricts Eq parser parser where
  sound _ other _ hrun := ⟨other, hrun, rfl⟩
  complete _ result _ hrun _ := ⟨result, hrun, rfl⟩

theorem pure {related : α → β → Prop} {value : α} {other : β} (hrelated : related value other) :
    Restricts related (pure value : Parser Err α) (pure other) where
  sound rest result left hrun := by
    obtain ⟨rfl, rfl⟩ := pure_eq_ok.mp hrun
    exact ⟨value, rfl, hrelated⟩
  complete rest result left hrun _ := by
    obtain ⟨rfl, rfl⟩ := pure_eq_ok.mp hrun
    exact ⟨other, rfl, hrelated⟩

theorem throw (related : α → β → Prop) (wide narrow : Err) :
    Restricts related (MonadExcept.throw wide : Parser Err α)
      (MonadExcept.throw narrow : Parser Err β) where
  sound _ _ _ hrun := absurd hrun throw_ne_ok
  complete _ _ _ hrun _ := absurd hrun throw_ne_ok

/-- A narrow parser may throw where the wide one only has results without a counterpart. -/
theorem throw_of_rejects {related : α → β → Prop} {wide : Parser Err α}
    (hwide : Rejects related wide) (err : Err) :
    Restricts related wide (MonadExcept.throw err : Parser Err β) where
  sound _ _ _ hrun := absurd hrun throw_ne_ok
  complete rest result left hrun hrelated :=
    absurd hrelated (not_exists.mpr (hwide rest result left hrun))

theorem bind {first : α → β → Prop} {related : γ → δ → Prop} {wide : Parser Err α}
    {narrow : Parser Err β} {wideNext : α → Parser Err γ} {narrowNext : β → Parser Err δ}
    (hfirst : Restricts first wide narrow)
    (hnext : ∀ value other, first value other →
      Restricts related (wideNext value) (narrowNext other))
    (hreject : ∀ value, (∀ other, ¬ first value other) → Rejects related (wideNext value)) :
    Restricts related (wide >>= wideNext) (narrow >>= narrowNext) where
  sound rest other left hrun := by
    obtain ⟨value, mid, hvalue, hresult⟩ := bind_eq_ok.mp hrun
    obtain ⟨wideValue, hwide, hrelated⟩ := hfirst.sound _ _ _ hvalue
    obtain ⟨result, hlast, hresult⟩ := (hnext _ _ hrelated).sound _ _ _ hresult
    exact ⟨result, bind_eq_ok.mpr ⟨_, _, hwide, hlast⟩, hresult⟩
  complete rest result left hrun hrelated := by
    obtain ⟨value, mid, hvalue, hresult⟩ := bind_eq_ok.mp hrun
    have hcounterpart : ∃ other, first value other := by
      by_contra hnone
      exact absurd hrelated
        (not_exists.mpr (hreject value (not_exists.mp hnone) _ _ _ hresult))
    obtain ⟨other, hnarrow, hvalue⟩ := hfirst.complete _ _ _ hvalue hcounterpart
    obtain ⟨result, hlast, hresult⟩ := (hnext _ _ hvalue).complete _ _ _ hresult hrelated
    exact ⟨result, bind_eq_ok.mpr ⟨_, _, hnarrow, hlast⟩, hresult⟩

/-- A wide parser that goes on by mapping its result. -/
theorem map {first : α → β → Prop} {related : γ → β → Prop} {wide : Parser Err α}
    {narrow : Parser Err β} {view : α → γ} (hfirst : Restricts first wide narrow)
    (hview : ∀ value other, first value other → related (view value) other)
    (hlost : ∀ value, (∀ other, ¬ first value other) → ∀ other, ¬ related (view value) other) :
    Restricts related (wide >>= fun value ↦ Pure.pure (view value)) narrow := by
  have hbind : Restricts related (wide >>= fun value ↦ Pure.pure (view value))
      (narrow >>= Pure.pure) :=
    hfirst.bind (fun value other hrelated ↦ pure (hview value other hrelated))
      fun value hnone ↦ Rejects.pure (hlost value hnone)
  rwa [bind_pure] at hbind

/-- A common first step. -/
theorem bind_same {related : β → γ → Prop} {first : Parser Err α} {wideNext : α → Parser Err β}
    {narrowNext : α → Parser Err γ}
    (hnext : ∀ value, Restricts related (wideNext value) (narrowNext value)) :
    Restricts related (first >>= wideNext) (first >>= narrowNext) :=
  (refl first).bind (fun value _ heq ↦ heq ▸ hnext value) fun value hnone ↦ absurd rfl (hnone value)

section Loop

variable [Inhabited Err] {states : σ → τ → Prop} {related : α → β → Prop}
  {wide : σ → Parser Err (σ ⊕ α)} {narrow : τ → Parser Err (τ ⊕ β)}

theorem rejects_loopFor
    (hreject : ∀ state, (∀ other, ¬ states state other) →
      Rejects (Sum.LiftRel states related) (wide state)) (rounds : ℕ) :
    ∀ state, (∀ other, ¬ states state other) → Rejects related (loopFor wide rounds state) := by
  induction rounds with
  | zero => exact fun _ _ ↦ rejects_throw related default
  | succ rounds ih =>
      intro state hnone rest result left hrun
      obtain ⟨round, mid, hround, hresult⟩ := bind_eq_ok.mp hrun
      have hlost := hreject state hnone rest round mid hround
      cases round with
      | inl state =>
          exact ih state (fun other hother ↦ hlost (.inl other) (.inl hother)) _ _ _ hresult
      | inr value =>
          exact Rejects.pure (fun other hother ↦ hlost (.inr other) (.inr hother)) _ _ _ hresult

theorem loopFor
    (hbody : ∀ state other, states state other →
      Restricts (Sum.LiftRel states related) (wide state) (narrow other))
    (hreject : ∀ state, (∀ other, ¬ states state other) →
      Rejects (Sum.LiftRel states related) (wide state)) (rounds : ℕ) :
    ∀ state other, states state other →
      Restricts related (loopFor wide rounds state) (loopFor narrow rounds other) := by
  induction rounds with
  | zero => exact fun _ _ _ ↦ throw related default default
  | succ rounds ih =>
      intro state other hstates
      refine (hbody state other hstates).bind ?_ ?_
      · rintro _ _ (hnext | hdone)
        · exact ih _ _ hnext
        · exact pure hdone
      · rintro (state | value) hnone
        · exact rejects_loopFor hreject rounds state fun other hother ↦
            hnone (.inl other) (.inl hother)
        · exact Rejects.pure fun other hother ↦ hnone (.inr other) (.inr hother)

/-- Loops over related states, where a state without a counterpart never regains one. -/
theorem loop
    (hbody : ∀ state other, states state other →
      Restricts (Sum.LiftRel states related) (wide state) (narrow other))
    (hreject : ∀ state, (∀ other, ¬ states state other) →
      Rejects (Sum.LiftRel states related) (wide state))
    {state : σ} {other : τ} (hstates : states state other) :
    Restricts related (loop wide state) (loop narrow other) where
  sound rest := (loopFor hbody hreject (rest.length + 1) state other hstates).sound rest
  complete rest := (loopFor hbody hreject (rest.length + 1) state other hstates).complete rest

end Loop

end Restricts

end Parser

end Deblob.Lib
