import Deblob.Lib.Parser
import Deblob.Lib.Utf8

/-!
# Recognizers

A parser recognizes a language if every text it takes off the input is one of the language, and it
takes every text of the language that is followed by something that cannot prolong it. Recognizers
are composed like the parsers are.
-/

namespace Deblob.Lib.Parser

variable {Err α β σ : Type}

/-- Texts with the values they denote. -/
abbrev TextLanguage (α : Type) := List Char → α → Prop

/-- The next byte is none of those to keep. -/
def NotAhead (keep : UInt8 → Bool) (rest : List UInt8) : Prop :=
  ∀ byte ∈ rest.head?, keep byte = false

structure Recognizes (Follow : List UInt8 → Prop) (language : TextLanguage α)
    (parser : Parser Err α) : Prop where
  sound : ∀ rest value left, parser rest = .ok (value, left) →
    ∃ text, rest = encode text ++ left ∧ language text value
  complete : ∀ text value left, language text value → Follow left →
    parser (encode text ++ left) = .ok (value, left)

theorem notAhead_nil (keep : UInt8 → Bool) : NotAhead keep [] := by
  simp [NotAhead]

theorem notAhead_cons {keep : UInt8 → Bool} {byte : UInt8} (hbyte : keep byte = false)
    (rest : List UInt8) : NotAhead keep (byte :: rest) := by
  simpa [NotAhead] using hbyte

/-- A character that is not kept may follow. -/
theorem notAhead_encode_cons {keep : UInt8 → Bool} {char : Char} (hascii : char.toNat < 128)
    (hchar : keep char.toUInt8 = false) (text : List Char) (rest : List UInt8) :
    NotAhead keep (encode (char :: text) ++ rest) := by
  rw [encode_cons_ascii hascii]
  exact notAhead_cons hchar _

theorem NotAhead.mono {keep narrow : UInt8 → Bool} {rest : List UInt8}
    (hrest : NotAhead keep rest) (hnarrow : ∀ byte, narrow byte → keep byte) :
    NotAhead narrow rest := by
  intro byte hbyte
  have hkeep := hrest byte hbyte
  by_contra hnarrowed
  rw [hnarrow byte (Bool.eq_true_of_not_eq_false hnarrowed)] at hkeep
  cases hkeep

namespace Recognizes

variable {Follow Wide Next : List UInt8 → Prop} {language : TextLanguage α} {parser : Parser Err α}

theorem congr {other : TextLanguage α} (hparser : Recognizes Follow language parser)
    (hiff : ∀ text value, language text value ↔ other text value) :
    Recognizes Follow other parser where
  sound rest value left hrun := by
    rcases hparser.sound rest value left hrun with ⟨text, hrest, htext⟩
    exact ⟨text, hrest, (hiff text value).mp htext⟩
  complete text value left htext := hparser.complete text value left ((hiff text value).mpr htext)

theorem narrow (hparser : Recognizes Wide language parser) (hfollow : ∀ left, Follow left → Wide left) :
    Recognizes Follow language parser where
  sound := hparser.sound
  complete text value left htext hleft := hparser.complete text value left htext (hfollow left hleft)

theorem pure (value : α) :
    Recognizes Follow (fun text result ↦ text = [] ∧ result = value)
      (Pure.pure value : Parser Err α) where
  sound rest result left hrun := by
    obtain ⟨rfl, rfl⟩ := pure_eq_ok.mp hrun
    exact ⟨[], rfl, rfl, rfl⟩
  complete := by
    rintro _ _ left ⟨rfl, rfl⟩ -
    rfl

/-- One text behind the other. What follows the first one is the second one, or what follows both. -/
theorem bind {next : α → Parser Err β} {following : α → TextLanguage β}
    (hparser : Recognizes Follow language parser)
    (hnext : ∀ value, Recognizes Next (following value) (next value))
    (hfollow : ∀ front value back result left, language front value →
      following value back result → Next left → Follow (encode back ++ left)) :
    Recognizes Next
      (fun text result ↦ ∃ front value back, language front value ∧ following value back result ∧
        text = front ++ back) (parser >>= next) where
  sound rest result left hrun := by
    obtain ⟨value, mid, hvalue, hresult⟩ := bind_eq_ok.mp hrun
    rcases hparser.sound rest value mid hvalue with ⟨front, rfl, hfront⟩
    rcases (hnext value).sound mid result left hresult with ⟨back, rfl, hback⟩
    refine ⟨front ++ back, ?_, front, value, back, hfront, hback, rfl⟩
    rw [encode_append, List.append_assoc]
  complete := by
    rintro _ result left ⟨front, value, back, hfront, hback, rfl⟩ hleft
    rw [encode_append, List.append_assoc]
    apply bind_eq_ok.mpr
    refine ⟨value, encode back ++ left, ?_, ?_⟩
    · exact hparser.complete front value _ hfront
        (hfollow front value back result left hfront hback hleft)
    · exact (hnext value).complete back result left hback hleft

theorem map (hparser : Recognizes Follow language parser) (view : α → β) :
    Recognizes Follow (fun text result ↦ ∃ value, language text value ∧ result = view value)
      (parser >>= fun value ↦ Pure.pure (view value)) := by
  refine (hparser.bind (fun value ↦ pure (view value)) ?_).congr fun text result ↦ ⟨?_, ?_⟩
  · rintro _ _ _ _ left - ⟨rfl, -⟩ hleft
    exact hleft
  · rintro ⟨front, value, _, hfront, ⟨rfl, rfl⟩, rfl⟩
    exact ⟨value, by simpa using hfront, rfl⟩
  · rintro ⟨value, htext, rfl⟩
    exact ⟨text, value, [], htext, ⟨rfl, rfl⟩, (List.append_nil _).symm⟩

end Recognizes

/-- The bytes to keep are taken as long as there are any. -/
theorem recognizes_skipWhile {keep : UInt8 → Bool} (hascii : ∀ byte, keep byte → byte.toNat < 128) :
    Recognizes (NotAhead keep)
      (fun text _ ↦ ∀ char ∈ text, char.toNat < 128 ∧ keep char.toUInt8)
      (skipWhile keep : Parser Err Unit) where
  sound := by
    rintro rest - _ ⟨⟩
    refine ⟨(rest.takeWhile keep).map Char.ofUInt8, ?_, ?_⟩
    · have hencode {bytes : List UInt8} (hbytes : ∀ byte ∈ bytes, keep byte) :
          encode (bytes.map Char.ofUInt8) = bytes := by
        induction bytes with
        | nil => rfl
        | cons byte bytes ih =>
            obtain ⟨hbyte, hbytes⟩ := List.forall_mem_cons.mp hbytes
            have hsmall : (Char.ofUInt8 byte).toNat < 128 := hascii byte hbyte
            rw [List.map_cons, encode_cons_ascii hsmall, toUInt8_ofUInt8, ih hbytes]
      rw [hencode fun _ ↦ List.mem_takeWhile_imp]
      exact List.takeWhile_append_dropWhile.symm
    · intro char hchar
      obtain ⟨byte, hbyte, rfl⟩ := List.mem_map.mp hchar
      have hkeep : keep byte := List.mem_takeWhile_imp hbyte
      rw [toUInt8_ofUInt8]
      exact ⟨hascii byte hkeep, hkeep⟩
  complete text _ left htext hleft := by
    change Except.ok ((), (encode text ++ left).dropWhile keep) = _
    induction text with
    | nil =>
        cases left with
        | nil => rfl
        | cons byte left =>
            rw [encode_nil, List.nil_append, List.dropWhile_cons_of_neg]
            simp [hleft byte rfl]
    | cons char text ih =>
        obtain ⟨⟨hsmall, hkeep⟩, htext⟩ := List.forall_mem_cons.mp htext
        rw [encode_cons_ascii hsmall, List.cons_append, List.dropWhile_cons_of_pos hkeep, ih htext]

/-! ## Loops -/

/-- The texts of the rounds of a loop. -/
inductive Rounds (Round : σ → TextLanguage (σ ⊕ α)) : σ → List Char → α → Prop
  | stop {state : σ} {text : List Char} {result : α} (hround : Round state text (.inr result)) :
      Rounds Round state text result
  | next {state after : σ} {text rest : List Char} {result : α}
      (hround : Round state text (.inl after)) (hrest : Rounds Round after rest result) :
      Rounds Round state (text ++ rest) result

/-- A loop recognizes its rounds one behind the other if anything may follow a round. -/
theorem recognizes_loop [Inhabited Err] {body : σ → Parser Err (σ ⊕ α)}
    {Round : σ → TextLanguage (σ ⊕ α)} (hbody : ∀ state, Consumes (body state))
    (hround : ∀ state, Recognizes (fun _ ↦ True) (Round state) (body state)) (state : σ) :
    Recognizes (fun _ ↦ True) (Rounds Round state) (loop body state) where
  sound rest value left hrun := by
    refine loop_induct (motive := fun state rest value left ↦
      ∃ text, rest = encode text ++ left ∧ Rounds Round state text value) ?_ ?_ hrun
    · intro state rest result left hlast
      rcases (hround state).sound rest _ left hlast with ⟨text, hrest, htext⟩
      exact ⟨text, hrest, .stop htext⟩
    · rintro state rest after _ result left hfirst ⟨more, rfl, hmore⟩
      rcases (hround state).sound rest _ _ hfirst with ⟨text, rfl, htext⟩
      refine ⟨text ++ more, ?_, .next htext hmore⟩
      rw [encode_append, List.append_assoc]
  complete text value left htext _ := by
    induction htext with
    | stop hlast => exact loop_of_inr hbody ((hround _).complete _ _ left hlast trivial)
    | next hfirst _ ih =>
        rw [encode_append, List.append_assoc,
          loop_of_inl hbody ((hround _).complete _ _ _ hfirst trivial)]
        exact ih

end Deblob.Lib.Parser
