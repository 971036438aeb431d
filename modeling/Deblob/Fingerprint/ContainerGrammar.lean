import Deblob.Fingerprint.StringGrammar

/-!
# Containers

Objects and arrays are read by one loop, which recognizes elements between brackets. The loop folds
what its elements denote into its state, so its result is the fold over the whole list.
-/

namespace Deblob.Fingerprint

open Core Lib
open Lib.Parser
open Lib.Json (Ws whitespace Padded Separated Enclosed)

/-- The texts of a language with white space in front of them. -/
def Led {α : Type} (Element : TextLanguage α) : TextLanguage α := fun text value ↦
  ∃ before body, Ws before ∧ Element body value ∧ text = before ++ body

/-- A parser that is called behind the first character of what it recognizes, without taking it. -/
structure RecognizesFrom {α : Type} (opening : Char) (language : TextLanguage α) (parser : Parser α) :
    Prop where
  sound : ∀ rest value left, rest.head?.map Char.ofUInt8 = some opening →
    parser rest = .ok (value, left) → ∃ text, rest = encode text ++ left ∧ language text value
  complete : ∀ text value left, language text value → parser (encode text ++ left) = .ok (value, left)
  opens : ∀ text value, language text value → ∃ rest, text = opening :: rest

/-- White space and a byte that is not to keep. -/
theorem notAhead_ws {keep : UInt8 → Bool} {gap : List Char} (hgap : Ws gap)
    (hkeep : ∀ char ∈ whitespace, keep char.toUInt8 = false) {rest : List UInt8}
    (hrest : NotAhead keep rest) : NotAhead keep (encode gap ++ rest) := by
  cases gap with
  | nil => exact hrest
  | cons char gap =>
      have hchar := hgap char List.mem_cons_self
      exact notAhead_encode_cons (whitespace_ascii char hchar) (hkeep char hchar) gap rest

section Container

variable {σ α β : Type} {opening closing : Char} {element : σ → Parser σ} {finish : σ → α}
  {push : σ → β → σ} {Element : TextLanguage β}

theorem recognizes_separator (hclosing : closing ∈ [']', '\x7d']) (finish : σ → α) (state : σ) :
    Recognizes (fun _ ↦ True)
      (fun text outcome ↦ (text = [','] ∧ outcome = .inl state) ∨
        (text = [closing] ∧ outcome = .inr (finish state))) (separator closing finish state) := by
  have hascii : closing.toNat < 128 := by
    rcases List.mem_pair.mp hclosing with rfl | rfl <;> decide
  have hcomma : closing ≠ ',' := by
    rcases List.mem_pair.mp hclosing with rfl | rfl <;> decide
  constructor
  · intro rest outcome left hrun
    obtain ⟨_, _, hbump, hrest⟩ := bind_eq_ok.mp hrun
    obtain ⟨rfl, rfl⟩ := bump_eq_ok.mp hbump
    split_ifs at hrest with hmore hlast
    · obtain ⟨rfl, rfl⟩ := pure_eq_ok.mp hrest
      exact ⟨[','], head_eq_some (by decide) hmore, .inl ⟨rfl, rfl⟩⟩
    · obtain ⟨rfl, rfl⟩ := pure_eq_ok.mp hrest
      exact ⟨[closing], head_eq_some hascii hlast, .inr ⟨rfl, rfl⟩⟩
    · exact absurd hrest throw_ne_ok
  · rintro _ outcome left htext -
    apply bind_eq_ok.mpr
    rcases htext with ⟨rfl, rfl⟩ | ⟨rfl, rfl⟩
    · exact ⟨some ','.toUInt8, left, rfl, rfl⟩
    · refine ⟨some closing.toUInt8, left, ?_, ?_⟩
      · rw [encode_cons_ascii hascii]
        rfl
      · rw [Option.map_some, ofUInt8_toUInt8 hascii, if_neg (by simpa using hcomma), if_pos rfl]
        rfl

/-- An element with the white space around it and what ends it. -/
def Round (closing : Char) (finish : σ → α) (push : σ → β → σ) (Element : TextLanguage β)
    (state : σ) : TextLanguage (σ ⊕ α) := fun text outcome ↦
  ∃ body value, Padded Element body value ∧
    ((text = body ++ [','] ∧ outcome = .inl (push state value)) ∨
      (text = body ++ [closing] ∧ outcome = .inr (finish (push state value))))

theorem recognizes_containerRound (hclosing : closing ∈ [']', '\x7d'])
    (helement : ∀ state, Recognizes (NotAhead numberByte)
      (fun text next ↦ ∃ value, Led Element text value ∧ next = push state value) (element state))
    (state : σ) :
    Recognizes (fun _ ↦ True) (Round closing finish push Element state)
      (containerRound closing element finish state) := by
  have hends : ∀ char ∈ [',', closing], char.toNat < 128 ∧ isWs char.toUInt8 = false ∧
      numberByte char.toUInt8 = false := by
    rcases List.mem_pair.mp hclosing with rfl | rfl <;>
      exact List.all_iff_forall_prop.mp (by decide)
  have hend {text : List Char} {outcome : σ ⊕ α} {next : σ}
      (htext : (text = [','] ∧ outcome = .inl next) ∨
        (text = [closing] ∧ outcome = .inr (finish next))) :
      ∃ char ∈ [',', closing], text = [char] := by
    rcases htext with ⟨rfl, -⟩ | ⟨rfl, -⟩
    · exact ⟨',', by simp, rfl⟩
    · exact ⟨closing, by simp, rfl⟩
  have htail (next : σ) := recognizes_skipWs.bind
    (fun _ ↦ recognizes_separator hclosing finish next) (by
      rintro _ _ _ _ left - htext -
      rcases hend htext with ⟨char, hchar, rfl⟩
      have hchar := hends char hchar
      exact notAhead_encode_cons hchar.1 hchar.2.1 [] left)
  refine ((helement state).bind htail ?_).congr fun text outcome ↦ ?_
  · rintro _ _ _ _ left - ⟨after, _, _, hafter, htext, rfl⟩ -
    rcases hend htext with ⟨char, hchar, rfl⟩
    have hchar := hends char hchar
    rw [encode_append, List.append_assoc]
    apply notAhead_ws hafter (List.all_iff_forall_prop.mp (by decide))
    exact notAhead_encode_cons hchar.1 hchar.2.2 [] left
  · constructor
    · rintro ⟨_, _, _, ⟨value, ⟨before, body, hbefore, hbody, rfl⟩, rfl⟩,
        ⟨after, _, last, hafter, hlast, rfl⟩, rfl⟩
      refine ⟨before ++ (body ++ after), value, .mk hbefore hbody hafter, ?_⟩
      rcases hlast with ⟨rfl, rfl⟩ | ⟨rfl, rfl⟩
      · exact .inl ⟨by simp, rfl⟩
      · exact .inr ⟨by simp, rfl⟩
    · rintro ⟨_, value, @⟨before, body, after, _, hbefore, hbody, hafter⟩, hlast⟩
      rcases hlast with ⟨rfl, rfl⟩ | ⟨rfl, rfl⟩
      · exact ⟨before ++ body, _, after ++ [','], ⟨value, ⟨before, body, hbefore, hbody, rfl⟩, rfl⟩,
          ⟨after, (), [','], hafter, .inl ⟨rfl, rfl⟩, rfl⟩, by simp⟩
      · exact ⟨before ++ body, _, after ++ [closing],
          ⟨value, ⟨before, body, hbefore, hbody, rfl⟩, rfl⟩,
          ⟨after, (), [closing], hafter, .inr ⟨rfl, rfl⟩, rfl⟩, by simp⟩

/-- The rounds of a container are its elements and the bracket behind them. -/
theorem rounds_iff (state : σ) (text : List Char) (result : α) :
    Rounds (Round closing finish push Element) state text result ↔
      ∃ body values, Separated (Padded Element) body values ∧ text = body ++ [closing] ∧
        result = finish (values.foldl push state) := by
  constructor
  · intro hrounds
    induction hrounds with
    | stop hround =>
        rcases hround with ⟨body, value, hbody, ⟨_, ⟨⟩⟩ | ⟨rfl, ⟨⟩⟩⟩
        exact ⟨body, [value], .last hbody, rfl, rfl⟩
    | next hround _ ih =>
        rcases hround with ⟨body, value, hbody, ⟨rfl, ⟨⟩⟩ | ⟨_, ⟨⟩⟩⟩
        rcases ih with ⟨more, values, hmore, rfl, rfl⟩
        exact ⟨body ++ ',' :: more, value :: values, .more hbody hmore, by simp, rfl⟩
  · rintro ⟨body, values, hbody, rfl, rfl⟩
    induction hbody generalizing state with
    | last hbody => exact .stop ⟨_, _, hbody, .inr ⟨rfl, rfl⟩⟩
    | @more text rest value values hbody _ ih =>
        have hnext : Round closing finish push Element state (text ++ [','])
            (.inl (push state value)) := ⟨text, value, hbody, .inl ⟨rfl, rfl⟩⟩
        have hrounds := Rounds.next hnext (ih (push state value))
        rwa [show text ++ ',' :: rest ++ [closing] = text ++ [','] ++ (rest ++ [closing]) by simp]

/-- A container folds what stands between its brackets. -/
theorem recognizes_container (hopening : opening.toNat < 128) (hclosing : closing ∈ [']', '\x7d'])
    (hconsumes : ∀ state, Consumes (element state))
    (helement : ∀ state, Recognizes (NotAhead numberByte)
      (fun text next ↦ ∃ value, Led Element text value ∧ next = push state value) (element state))
    (hstart : ∀ text value, Element text value → ∃ first rest, text = first :: rest ∧
      first.toNat < 128 ∧ first ∉ closing :: whitespace) (init : σ) :
    RecognizesFrom opening
      (fun text result ↦ ∃ values, Enclosed opening closing Element text values ∧
        result = finish (values.foldl push init)) (container closing element finish init) := by
  have hascii : closing.toNat < 128 ∧ isWs closing.toUInt8 = false := by
    rcases List.mem_pair.mp hclosing with rfl | rfl <;> decide
  have hloop : Recognizes (fun _ ↦ True) (Rounds (Round closing finish push Element) init)
      (loop (containerRound closing element finish) init) :=
    recognizes_loop (consumes_containerRound hconsumes) (recognizes_containerRound hclosing helement)
      init
  constructor
  · intro rest result left hhead hrun
    obtain ⟨_, _, ⟨⟩, hrun⟩ := bind_eq_ok.mp hrun
    obtain ⟨_, mid, hspace, hrun⟩ := bind_eq_ok.mp hrun
    obtain ⟨_, _, hnext, hrun⟩ := bind_eq_ok.mp hrun
    obtain ⟨rfl, rfl⟩ := isNext_eq_ok.mp hnext
    rcases recognizes_skipWs.sound _ _ _ hspace with ⟨gap, htail, hgap⟩
    rw [head_eq_some hopening hhead, htail]
    split_ifs at hrun with hclosed
    · obtain ⟨_, _, ⟨⟩, hrun⟩ := bind_eq_ok.mp hrun
      obtain ⟨rfl, hleft⟩ := pure_eq_ok.mp hrun
      refine ⟨opening :: (gap ++ [closing]), ?_, [], .empty hgap, rfl⟩
      rw [head_eq_some hascii.1 (of_decide_eq_true hclosed), hleft]
      simp [encode_cons]
    · rcases hloop.sound _ _ _ hrun with ⟨text, rfl, htext⟩
      rcases (rounds_iff init text result).mp htext with ⟨body, values, hbody, rfl, rfl⟩
      refine ⟨opening :: (gap ++ body ++ [closing]), ?_, values, .elements (hbody.prepend hgap), rfl⟩
      simp [encode_cons]
  · rintro _ _ left ⟨values, htext, rfl⟩
    cases htext with
    | @empty gap hgap =>
        rw [encode_cons_ascii hopening, encode_append, List.cons_append, List.append_assoc]
        apply bind_eq_ok.mpr
        refine ⟨_, _, rfl, ?_⟩
        apply bind_eq_ok.mpr
        refine ⟨(), encode [closing] ++ left, ?_, ?_⟩
        · apply recognizes_skipWs.complete gap () _ hgap
          exact notAhead_encode_cons hascii.1 hascii.2 [] left
        · apply bind_eq_ok.mpr
          refine ⟨_, _, isNext_eq_ok.mpr ⟨rfl, rfl⟩, ?_⟩
          rw [if_pos (decide_eq_true (head_encode_cons hascii.1 [] left)),
            encode_cons_ascii hascii.1]
          rfl
    | elements hbody =>
        rcases hbody.split with ⟨before, text, value, behind, hbefore, htext, rfl, hbehind⟩
        rcases hstart text value htext with ⟨first, rest, rfl, hfirst, hnot⟩
        rw [List.mem_cons, not_or] at hnot
        have hahead : isWs first.toUInt8 = false := by
          rw [← Bool.not_eq_true, isWs_toUInt8 hfirst]
          exact hnot.2
        rw [encode_cons_ascii hopening, encode_append, encode_append, List.cons_append,
          List.append_assoc, List.append_assoc, ← List.append_assoc (encode _) (encode _) left,
          ← encode_append]
        apply bind_eq_ok.mpr
        refine ⟨_, _, rfl, ?_⟩
        apply bind_eq_ok.mpr
        refine ⟨(), encode (first :: rest ++ behind ++ [closing]) ++ left, ?_, ?_⟩
        · apply recognizes_skipWs.complete before () _ hbefore
          exact notAhead_encode_cons hfirst hahead _ left
        · apply bind_eq_ok.mpr
          refine ⟨_, _, isNext_eq_ok.mpr ⟨rfl, rfl⟩, ?_⟩
          rw [if_neg]
          · apply hloop.complete _ _ left ?_ trivial
            exact (rounds_iff init _ _).mpr ⟨_, values, hbehind, rfl, rfl⟩
          · rw [decide_eq_true_iff]
            intro hclosed
            have hsame := (head_encode_cons hfirst (rest ++ behind ++ [closing]) left).symm.trans hclosed
            exact hnot.1 (Option.some.inj hsame)
  · rintro _ _ ⟨values, htext, -⟩
    exact htext.eq_cons

end Container

end Deblob.Fingerprint
