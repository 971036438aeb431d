import Deblob.Fingerprint.ContainerGrammar
import Deblob.Fingerprint.ParseStrict

/-!
# Values and documents

With room for so many levels, the reader of values recognizes the values of the grammar whose
containers, keys and strings are within the limits. The parser accepts those of them without a
repeated key or too many members, if no array is cut.
-/

namespace Deblob.Fingerprint

open Core Lib
open Lib.Parser
open Lib.Json (Tree Ws whitespace Number StringLiteral Padded Enclosed Member Value)

/-! ## Trees -/

mutual

/-- The node of a value no element of which is skipped. -/
def Node.ofTree : Tree → Node
  | .null => .null
  | .bool value => .bool value
  | .number text => .number text
  | .string text => .string text
  | .array items => .array (nodesOfItems items) false
  | .object members => .object (nodesOfMembers members)

def nodesOfItems : List Tree → List Node
  | [] => []
  | item :: items => .ofTree item :: nodesOfItems items

def nodesOfMembers : List (String × Tree) → Fields
  | [] => []
  | (key, value) :: members => (key, .ofTree value) :: nodesOfMembers members

end

theorem nodesOfItems_eq (items : List Tree) : nodesOfItems items = items.map Node.ofTree := by
  induction items with
  | nil => rfl
  | cons item items ih => rw [nodesOfItems, ih, List.map_cons]

theorem nodesOfMembers_eq (members : List (String × Tree)) :
    nodesOfMembers members = members.map fun member ↦ (member.1, Node.ofTree member.2) := by
  induction members with
  | nil => rfl
  | cons member members ih => rw [nodesOfMembers, ih, List.map_cons]

mutual

/-- Nothing is cut off a tree without long arrays. -/
theorem cut_ofTree {cap : ℕ} : {tree : Tree} →
    (∀ items ∈ (Node.ofTree tree).arrays, items.length ≤ cap) →
    (Node.ofTree tree).cut cap = Node.ofTree tree
  | .array items, hcap => by
    obtain ⟨hitems, hinner⟩ := List.forall_mem_cons.mp hcap
    rw [Node.ofTree, Node.cut, cut_nodesOfItems hitems hinner]
    simpa using hitems
  | .object members, hcap => by
    rw [Node.ofTree, Node.cut, cut_nodesOfMembers hcap]
  | .null, _ | .bool _, _ | .number _, _ | .string _, _ => rfl

theorem cut_nodesOfItems {cap : ℕ} : {room : ℕ} → {items : List Tree} →
    (nodesOfItems items).length ≤ room →
    (∀ inner ∈ arraysOfItems (nodesOfItems items), inner.length ≤ cap) →
    cutItems cap room (nodesOfItems items) = nodesOfItems items
  | _, [], _, _ => by simp [nodesOfItems, cutItems]
  | room + 1, item :: items, hroom, hcap => by
    obtain ⟨hitem, hitems⟩ := List.forall_mem_append.mp hcap
    rw [nodesOfItems, cutItems, cut_ofTree hitem,
      cut_nodesOfItems (Nat.le_of_succ_le_succ hroom) hitems]

theorem cut_nodesOfMembers {cap : ℕ} : {members : List (String × Tree)} →
    (∀ inner ∈ arraysOfFields (nodesOfMembers members), inner.length ≤ cap) →
    cutFields cap (nodesOfMembers members) = nodesOfMembers members
  | [], _ => rfl
  | (_, value) :: members, hcap => by
    obtain ⟨hvalue, hmembers⟩ := List.forall_mem_append.mp hcap
    rw [nodesOfMembers, cutFields, cut_ofTree hvalue, cut_nodesOfMembers hmembers]

end

/-- Containers are nested at most so deep, and keys and strings are short enough. -/
inductive Sized (limits : Limits) : ℕ → Tree → Prop
  | null {levels : ℕ} : Sized limits levels .null
  | bool {levels : ℕ} (value : Bool) : Sized limits levels (.bool value)
  | number {levels : ℕ} (text : String) : Sized limits levels (.number text)
  | string {levels : ℕ} {text : String} (hlength : text.utf8ByteSize ≤ limits.maxStringLen) :
      Sized limits levels (.string text)
  | array {levels : ℕ} {items : List Tree} (hitems : ∀ item ∈ items, Sized limits levels item) :
      Sized limits (levels + 1) (.array items)
  | object {levels : ℕ} {members : List (String × Tree)}
      (hkeys : ∀ member ∈ members, member.1.utf8ByteSize ≤ limits.maxKeyLen)
      (hvalues : ∀ member ∈ members, Sized limits levels member.2) :
      Sized limits (levels + 1) (.object members)

/-! ## Values -/

/-- The texts of the values within the limits, with their nodes. -/
def ValueText (limits : Limits) (levels : ℕ) : TextLanguage Node := fun text node ↦
  ∃ tree, Value text tree ∧ Sized limits levels tree ∧ node = Node.ofTree tree

def ArrayText (limits : Limits) (levels : ℕ) : TextLanguage Node := fun text node ↦
  ∃ items, Enclosed '[' ']' Value text items ∧ Sized limits levels (.array items) ∧
    node = Node.ofTree (.array items)

def ObjectText (limits : Limits) (levels : ℕ) : TextLanguage Node := fun text node ↦
  ∃ members, Enclosed '\x7b' '\x7d' (Member Value) text members ∧
    Sized limits levels (.object members) ∧ node = Node.ofTree (.object members)

def MemberText (limits : Limits) (levels : ℕ) : TextLanguage (String × Node) := fun text field ↦
  Member (ValueText limits levels) text field ∧ field.1.utf8ByteSize ≤ limits.maxKeyLen

/-- The first characters of values. -/
def starters : List Char := "\x7b[\"tfn-0123456789".toList

theorem digit_mem_starters {char : Char} (hdigit : char.isDigit) : char ∈ starters := by
  simp only [Char.isDigit, Bool.and_eq_true, decide_eq_true_eq] at hdigit
  have hlow : '0' ≤ char := hdigit.1
  have hhigh : char ≤ '9' := hdigit.2
  obtain ⟨offset, hoffset, -, rfl⟩ := eq_ofNat_of_range hlow hhigh
  have hall : ∀ offset ≤ '9'.toNat - '0'.toNat, Char.ofNat ('0'.toNat + offset) ∈ starters := by
    decide
  exact hall offset hoffset

theorem Value.starts {text : List Char} {tree : Tree} (htext : Value text tree) :
    ∃ first rest, text = first :: rest ∧ first ∈ starters := by
  cases htext with
  | null => exact ⟨'n', _, rfl, by decide⟩
  | bool value =>
      cases value
      · exact ⟨'f', _, rfl, by decide⟩
      · exact ⟨'t', _, rfl, by decide⟩
  | number htext =>
      obtain ⟨first, rest, rfl, rfl | hfirst⟩ := htext.eq_cons
      · exact ⟨'-', rest, rfl, by decide⟩
      · exact ⟨first, rest, rfl, digit_mem_starters hfirst⟩
  | string htext =>
      cases htext with
      | mk _ => exact ⟨'"', _, rfl, by decide⟩
  | array htext =>
      obtain ⟨rest, rfl⟩ := htext.eq_cons
      exact ⟨'[', rest, rfl, by decide⟩
  | object htext =>
      obtain ⟨rest, rfl⟩ := htext.eq_cons
      exact ⟨'\x7b', rest, rfl, by decide⟩

theorem starters_ascii : ∀ char ∈ starters, char.toNat < 128 ∧ isWs char.toUInt8 = false ∧
    char ∉ ']' :: whitespace :=
  List.all_iff_forall_prop.mp (by decide)

/-- The dispatch on the first byte of a value. -/
theorem recognizes_dispatch {limits : Limits} {levels : ℕ} {object array : Parser Node}
    (hobject : RecognizesFrom '\x7b' (ObjectText limits levels) object)
    (harray : RecognizesFrom '[' (ArrayText limits levels) array) :
    Recognizes (NotAhead numberByte) (Led (ValueText limits levels))
      (dispatch limits id object array) where
  sound rest node left hrun := by
    obtain ⟨_, mid, hspace, hrun⟩ := bind_eq_ok.mp hrun
    obtain ⟨_, _, hpeek, hrest⟩ := bind_eq_ok.mp hrun
    obtain ⟨rfl, rfl⟩ : mid.head? = _ ∧ mid = _ := by simpa [peek] using hpeek
    rcases recognizes_skipWs.sound _ _ _ hspace with ⟨before, rfl, hbefore⟩
    suffices hbody : ∃ body, mid = encode body ++ left ∧ ValueText limits levels body node by
      rcases hbody with ⟨body, rfl, hbody⟩
      refine ⟨before ++ body, ?_, before, body, hbefore, hbody, rfl⟩
      rw [encode_append, List.append_assoc]
    have hliteral (keyword : String) (hkeyword : keyword ∈ ["true", "false", "null"])
        {tree : Tree} (hvalue : Value keyword.toList tree) (hsized : Sized limits levels tree)
        (hparse : parseLiteral keyword (Node.ofTree tree) mid = .ok (node, left)) :
        ∃ body, mid = encode body ++ left ∧ ValueText limits levels body node := by
      rcases (recognizes_parseLiteral hkeyword _).sound _ _ _ hparse with ⟨_, hmid, rfl, rfl⟩
      exact ⟨_, hmid, tree, hvalue, hsized, rfl⟩
    have hcases {next : Parser Node} (hstep : next mid = .ok (node, left))
        (hnext : next = throw .parseError ∨
          (mid.head?.map Char.ofUInt8 = some '\x7b' ∧ next = object) ∨
          (mid.head?.map Char.ofUInt8 = some '[' ∧ next = array) ∨
          (mid.head?.map Char.ofUInt8 = some '"' ∧
            next = (do return .string (← parseString limits))) ∨
          next = parseLiteral "true" (.bool true) ∨ next = parseLiteral "false" (.bool false) ∨
          next = parseLiteral "null" .null ∨ next = (do return .number (← parseNumber))) :
        ∃ body, mid = encode body ++ left ∧ ValueText limits levels body node := by
      rcases hnext with rfl | ⟨hhead, rfl⟩ | ⟨hhead, rfl⟩ | ⟨hhead, rfl⟩ | rfl | rfl | rfl | rfl
      · exact absurd hstep throw_ne_ok
      · rcases hobject.sound mid node left hhead hstep with ⟨body, hmid, _, hbody, hsized, rfl⟩
        exact ⟨body, hmid, _, .object hbody, hsized, rfl⟩
      · rcases harray.sound mid node left hhead hstep with ⟨body, hmid, _, hbody, hsized, rfl⟩
        exact ⟨body, hmid, _, .array hbody, hsized, rfl⟩
      · obtain ⟨text, _, hstring, hstep⟩ := bind_eq_ok.mp hstep
        obtain ⟨rfl, rfl⟩ := pure_eq_ok.mp hstep
        obtain ⟨hscan, hlength⟩ := scanRawString_require_eq_ok.mp hstring
        rcases scanRawString_sound hhead hscan with ⟨literal, hmid, hliteral⟩
        exact ⟨literal, hmid, _, .string hliteral, .string hlength, rfl⟩
      · exact hliteral "true" (by simp) (.bool true) (.bool true) hstep
      · exact hliteral "false" (by simp) (.bool false) (.bool false) hstep
      · exact hliteral "null" (by simp) .null .null hstep
      · obtain ⟨text, _, hnumber, hstep⟩ := bind_eq_ok.mp hstep
        obtain ⟨rfl, rfl⟩ := pure_eq_ok.mp hstep
        rcases recognizes_parseNumber.sound _ _ _ hnumber with ⟨body, hmid, hbody, rfl⟩
        exact ⟨body, hmid, _, .number hbody, .number _, rfl⟩
    refine hcases hrest ?_
    split
    · next hhead => exact .inr (.inl ⟨hhead, rfl⟩)
    · next hhead => exact .inr (.inr (.inl ⟨hhead, rfl⟩))
    · next hhead => exact .inr (.inr (.inr (.inl ⟨hhead, rfl⟩)))
    · exact .inr (.inr (.inr (.inr (.inl rfl))))
    · exact .inr (.inr (.inr (.inr (.inr (.inl rfl)))))
    · exact .inr (.inr (.inr (.inr (.inr (.inr (.inl rfl))))))
    · split_ifs
      · exact .inr (.inr (.inr (.inr (.inr (.inr (.inr rfl))))))
      · exact .inl rfl
    · exact .inl rfl
  complete := by
    rintro _ _ left ⟨before, body, hbefore, ⟨tree, hbody, hsized, rfl⟩, rfl⟩ hleft
    obtain ⟨first, rest, hfirst, hstarter⟩ := Value.starts hbody
    obtain ⟨hascii, hspace, -⟩ := starters_ascii first hstarter
    rw [encode_append, List.append_assoc]
    apply bind_eq_ok.mpr
    refine ⟨(), encode body ++ left, ?_, ?_⟩
    · apply recognizes_skipWs.complete before () _ hbefore
      rw [hfirst]
      exact notAhead_encode_cons hascii hspace rest left
    · apply bind_eq_ok.mpr
      refine ⟨_, _, rfl, ?_⟩
      have hhead := head_encode_cons hascii rest left
      rw [← hfirst] at hhead
      rw [hhead]
      cases hbody with
      | null =>
          obtain rfl : 'n' = first := (List.cons.inj hfirst).1
          exact (recognizes_parseLiteral (by simp) _).complete _ _ left ⟨rfl, rfl⟩ trivial
      | bool value =>
          cases value
          · obtain rfl : 'f' = first := (List.cons.inj hfirst).1
            exact (recognizes_parseLiteral (by simp) _).complete _ _ left ⟨rfl, rfl⟩ trivial
          · obtain rfl : 't' = first := (List.cons.inj hfirst).1
            exact (recognizes_parseLiteral (by simp) _).complete _ _ left ⟨rfl, rfl⟩ trivial
      | number hnumber =>
          obtain ⟨_, _, hsame, hsign⟩ := hnumber.eq_cons
          rw [hfirst] at hsame
          obtain ⟨rfl, rfl⟩ := List.cons.inj hsame
          -- no digit and no sign opens another kind of value
          refine (congrFun (?_ : _ = (do return .number (← parseNumber) : Parser Node)) _).trans ?_
          · split
            case h_7 char _ _ _ _ _ _ hchar =>
              rw [← Option.some.inj hchar, if_pos hsign]
              rfl
            case h_8 hnone => cases hnone
            all_goals
              next hchar =>
                rw [Option.some.inj hchar] at hsign
                rcases hsign with hsign | hsign <;> cases hsign
          · apply bind_eq_ok.mpr
            refine ⟨_, left, recognizes_parseNumber.complete _ _ left ⟨hnumber, rfl⟩ hleft, rfl⟩
      | @string _ value hliteral =>
          obtain rfl : '"' = first := by
            cases hliteral with
            | mk _ => exact (List.cons.inj hfirst).1
          cases hsized with
          | string hlength =>
              apply bind_eq_ok.mpr
              refine ⟨value, left, scanRawString_require_eq_ok.mpr ⟨?_, hlength⟩, rfl⟩
              exact scanRawString_complete hliteral left
      | object htext =>
          obtain ⟨_, hopen⟩ := htext.eq_cons
          obtain rfl : '\x7b' = first := (List.cons.inj (hopen.symm.trans hfirst)).1
          exact hobject.complete _ _ left ⟨_, htext, hsized, rfl⟩
      | array htext =>
          obtain ⟨_, hopen⟩ := htext.eq_cons
          obtain rfl : '[' = first := (List.cons.inj (hopen.symm.trans hfirst)).1
          exact harray.complete _ _ left ⟨_, htext, hsized, rfl⟩

/-! ## Levels -/

theorem consumes_readValue (limits : Limits) (levels : ℕ) : Consumes (readValue limits levels) := by
  induction levels with
  | zero => exact consumes_dispatch limits _ (consumes_throw _) (consumes_throw _)
  | succ levels ih =>
      refine consumes_dispatch limits _ (consumes_container (fun _ ↦ ?_) _)
        (consumes_container (fun _ ↦ ?_) _)
      · exact (consumes_memberKey limits).bind fun _ ↦ shrinks_colon.bind fun _ ↦
          ih.shrinks.bind fun _ ↦ shrinks_pure _
      · exact ih.bind fun _ ↦ shrinks_pure _

theorem foldl_concat {α : Type} (values init : List α) :
    values.foldl (fun state value ↦ state ++ [value]) init = init ++ values := by
  induction values generalizing init with
  | nil => rw [List.foldl_nil, List.append_nil]
  | cons value values ih => rw [List.foldl_cons, ih, List.append_assoc, List.singleton_append]

theorem forall₂_and_eq_iff {α β : Type} {accepted : α → Prop} {view : α → β} {values : List α}
    {others : List β} :
    List.Forall₂ (fun value other ↦ accepted value ∧ other = view value) values others ↔
      (∀ value ∈ values, accepted value) ∧ others = values.map view := by
  induction values generalizing others with
  | nil => simp
  | cons value values ih =>
      rw [List.forall₂_cons_left_iff, List.forall_mem_cons, List.map_cons]
      constructor
      · rintro ⟨_, rest, ⟨hvalue, rfl⟩, hrest, rfl⟩
        obtain ⟨hvalues, rfl⟩ := ih.mp hrest
        exact ⟨⟨hvalue, hvalues⟩, rfl⟩
      · rintro ⟨⟨hvalue, hvalues⟩, rfl⟩
        exact ⟨_, _, ⟨hvalue, rfl⟩, ih.mpr ⟨hvalues, rfl⟩, rfl⟩

theorem recognizes_readMember {limits : Limits} {levels : ℕ} {value : Parser Node}
    (hvalue : Recognizes (NotAhead numberByte) (Led (ValueText limits levels)) value)
    (fields : Fields) :
    Recognizes (NotAhead numberByte)
      (fun text next ↦ ∃ field, Led (MemberText limits levels) text field ∧
        next = fields ++ [field]) (readMember limits value fields) := by
  have hrest (key : String) := recognizes_colon.bind
    (fun _ ↦ hvalue.map fun value ↦ fields ++ [(key, value)]) fun _ _ _ _ _ _ _ _ ↦ trivial
  refine ((recognizes_memberKey limits).bind hrest fun _ _ _ _ _ _ _ _ ↦ trivial).congr
    fun text next ↦ ⟨?_, ?_⟩
  · rintro ⟨_, key, _, ⟨before, literal, hbefore, hliteral, hkey, rfl⟩,
      ⟨_, _, _, ⟨gap, hgap, rfl⟩, ⟨node, ⟨lead, body, hlead, hbody, rfl⟩, rfl⟩, rfl⟩, rfl⟩
    refine ⟨(key, node), ⟨before, literal ++ (gap ++ ':' :: (lead ++ body)), hbefore, ?_, ?_⟩, rfl⟩
    · exact ⟨.mk hliteral hgap hlead hbody, hkey⟩
    · simp
  · rintro ⟨_, ⟨before, _, hbefore, ⟨@⟨literal, gap, lead, body, key, node, hliteral, hgap, hlead,
      hbody⟩, hkey⟩, rfl⟩, rfl⟩
    refine ⟨before ++ literal, key, gap ++ [':'] ++ (lead ++ body),
      ⟨before, literal, hbefore, hliteral, hkey, rfl⟩, ?_, by simp⟩
    exact ⟨gap ++ [':'], (), lead ++ body, ⟨gap, hgap, rfl⟩,
      ⟨node, ⟨lead, body, hlead, hbody, rfl⟩, rfl⟩, rfl⟩

theorem RecognizesFrom.congr {α : Type} {opening : Char} {language other : TextLanguage α}
    {parser : Parser α} (hparser : RecognizesFrom opening language parser)
    (hiff : ∀ text value, language text value ↔ other text value) :
    RecognizesFrom opening other parser where
  sound rest value left hhead hrun := by
    rcases hparser.sound rest value left hhead hrun with ⟨text, hrest, htext⟩
    exact ⟨text, hrest, (hiff text value).mp htext⟩
  complete text value left htext := hparser.complete text value left ((hiff text value).mpr htext)
  opens text value htext := hparser.opens text value ((hiff text value).mpr htext)

theorem recognizesFrom_throw {α : Type} (opening : Char) {language : TextLanguage α}
    (hnone : ∀ text value, ¬ language text value) (err : QuarantineReason) :
    RecognizesFrom opening language (throw err : Parser α) where
  sound _ _ _ _ hrun := absurd hrun throw_ne_ok
  complete text value _ htext := absurd htext (hnone text value)
  opens text value htext := absurd htext (hnone text value)

section Containers

variable {limits : Limits} {levels : ℕ} {value : Parser Node}

theorem recognizes_readArray (hconsumes : Consumes value)
    (hvalue : Recognizes (NotAhead numberByte) (Led (ValueText limits levels)) value) :
    RecognizesFrom '[' (ArrayText limits (levels + 1)) (readArray value) := by
  have hstart (text : List Char) (node : Node) (htext : ValueText limits levels text node) :
      ∃ first rest, text = first :: rest ∧ first.toNat < 128 ∧ first ∉ ']' :: whitespace := by
    rcases htext with ⟨tree, htext, -⟩
    obtain ⟨first, rest, rfl, hfirst⟩ := Value.starts htext
    obtain ⟨hascii, -, hnot⟩ := starters_ascii first hfirst
    exact ⟨first, rest, rfl, hascii, hnot⟩
  have hconsumesElement (items : List Node) : Consumes (readElement value items) :=
    hconsumes.bind fun _ ↦ shrinks_pure _
  have hread (items : List Node) : Recognizes (NotAhead numberByte)
      (fun text next ↦ ∃ node, Led (ValueText limits levels) text node ∧ next = items ++ [node])
      (readElement value items) :=
    hvalue.map fun node ↦ items ++ [node]
  have hcontainer : RecognizesFrom '[' (fun text node ↦ ∃ nodes,
      Enclosed '[' ']' (ValueText limits levels) text nodes ∧
        node = .array (nodes.foldl (fun items node ↦ items ++ [node]) []) false) (readArray value) :=
    @recognizes_container _ _ _ '[' ']' (readElement value) (Node.array · false) _ _ (by decide)
      (by decide) hconsumesElement hread hstart []
  refine hcontainer.congr fun text node ↦ ?_
  have hitems (nodes : List Node) : Enclosed '[' ']' (ValueText limits levels) text nodes ↔ _ :=
    Json.enclosed_iff (fun _ _ ↦ Iff.rfl) text nodes
  simp only [foldl_concat, List.nil_append, hitems, forall₂_and_eq_iff]
  constructor
  · rintro ⟨_, ⟨items, htext, hsized, rfl⟩, rfl⟩
    exact ⟨items, htext, .array hsized, by rw [Node.ofTree, nodesOfItems_eq]⟩
  · rintro ⟨items, htext, hsized, rfl⟩
    cases hsized with
    | array hsized => exact ⟨_, ⟨items, htext, hsized, rfl⟩, by rw [Node.ofTree, nodesOfItems_eq]⟩

theorem recognizes_readObject (hconsumes : Consumes value)
    (hvalue : Recognizes (NotAhead numberByte) (Led (ValueText limits levels)) value) :
    RecognizesFrom '\x7b' (ObjectText limits (levels + 1)) (readObject limits value) := by
  have hstart (text : List Char) (field : String × Node)
      (htext : MemberText limits levels text field) :
      ∃ first rest, text = first :: rest ∧ first.toNat < 128 ∧ first ∉ '\x7d' :: whitespace := by
    rcases htext with ⟨@⟨_, _, _, _, _, _, hkey, _, _, _⟩, -⟩
    cases hkey with
    | mk _ => exact ⟨'"', _, rfl, by decide, by decide⟩
  have hconsumesMember (fields : Fields) : Consumes (readMember limits value fields) :=
    (consumes_memberKey limits).bind fun _ ↦ shrinks_colon.bind fun _ ↦
      hconsumes.shrinks.bind fun _ ↦ shrinks_pure _
  have hcontainer : RecognizesFrom '\x7b' (fun text node ↦ ∃ fields,
      Enclosed '\x7b' '\x7d' (MemberText limits levels) text fields ∧
        node = .object (fields.foldl (fun fields field ↦ fields ++ [field]) []))
      (readObject limits value) :=
    recognizes_container (by decide) (by decide) hconsumesMember (recognizes_readMember hvalue)
      hstart []
  refine hcontainer.congr fun text node ↦ ?_
  have hmember (text : List Char) (field : String × Node) :
      MemberText limits levels text field ↔ ∃ member, Member Value text member ∧
        ((member.1.utf8ByteSize ≤ limits.maxKeyLen ∧ Sized limits levels member.2) ∧
          field = (member.1, Node.ofTree member.2)) := by
    constructor
    · rintro ⟨@⟨key, before, after, _, name, _, hliteral, hbefore, hafter, tree, htext, hsized, rfl⟩,
        hkey⟩
      exact ⟨(name, tree), .mk hliteral hbefore hafter htext, ⟨hkey, hsized⟩, rfl⟩
    · rintro ⟨_, @⟨key, before, after, _, name, tree, hliteral, hbefore, hafter, htext⟩,
        ⟨hkey, hsized⟩, rfl⟩
      exact ⟨.mk hliteral hbefore hafter ⟨tree, htext, hsized, rfl⟩, hkey⟩
  have hmembers (fields : Fields) :
      Enclosed '\x7b' '\x7d' (MemberText limits levels) text fields ↔ _ :=
    Json.enclosed_iff hmember text fields
  simp only [foldl_concat, List.nil_append, hmembers, forall₂_and_eq_iff]
  constructor
  · rintro ⟨_, ⟨members, htext, hsized, rfl⟩, rfl⟩
    refine ⟨members, htext, ?_, by rw [Node.ofTree, nodesOfMembers_eq]⟩
    exact .object (fun member hmember ↦ (hsized member hmember).1)
      fun member hmember ↦ (hsized member hmember).2
  · rintro ⟨members, htext, hsized, rfl⟩
    cases hsized with
    | object hkeys hvalues =>
        refine ⟨_, ⟨members, htext, ?_, rfl⟩, by rw [Node.ofTree, nodesOfMembers_eq]⟩
        exact fun member hmember ↦ ⟨hkeys member hmember, hvalues member hmember⟩

end Containers

/-- The values within the limits are read, with the white space in front of them. -/
theorem recognizes_readValue (limits : Limits) (levels : ℕ) :
    Recognizes (NotAhead numberByte) (Led (ValueText limits levels)) (readValue limits levels) := by
  induction levels with
  | zero =>
      apply recognizes_dispatch
      · apply recognizesFrom_throw
        rintro _ _ ⟨_, _, hsized, -⟩
        cases hsized
      · apply recognizesFrom_throw
        rintro _ _ ⟨_, _, hsized, -⟩
        cases hsized
  | succ levels ih =>
      have hconsumes := consumes_readValue limits levels
      exact recognizes_dispatch (recognizes_readObject hconsumes ih)
        (recognizes_readArray hconsumes ih)

/-! ## Documents -/

/-- A document and the tree it denotes: a JSON text in UTF-8. -/
def Denotes (bytes : List UInt8) (tree : Tree) : Prop :=
  ∃ text, bytes = encode text ∧ Json.Text text tree

theorem readDocument_eq_ok {limits : Limits} {bytes : List UInt8} {node : Node} :
    readDocument limits bytes = .ok node ↔ bytes.length ≤ limits.maxBytes ∧
      ∃ tree, Denotes bytes tree ∧ Sized limits limits.maxDepth tree ∧ node = Node.ofTree tree := by
  have hvalue := recognizes_readValue limits limits.maxDepth
  refine document_eq_ok.trans (and_congr_right' ⟨?_, ?_⟩)
  · rintro ⟨left, hrun, hleft⟩
    rcases hvalue.sound bytes node left hrun with
      ⟨_, rfl, before, body, hbefore, ⟨tree, hbody, hsized, rfl⟩, rfl⟩
    have hspace : skipWs left = .ok ((), []) := by
      change Except.ok ((), left.dropWhile isWs) = _
      rw [hleft]
    rcases recognizes_skipWs.sound _ _ _ hspace with ⟨after, rfl, hafter⟩
    refine ⟨tree, ⟨before ++ (body ++ after), ?_, .mk hbefore hbody hafter⟩, hsized, rfl⟩
    simp
  · rintro ⟨tree, ⟨_, rfl, @⟨before, body, after, _, hbefore, hbody, hafter⟩⟩, hsized, rfl⟩
    refine ⟨encode after, ?_, ?_⟩
    · rw [← List.append_assoc, encode_append]
      apply hvalue.complete _ _ _ ⟨before, body, hbefore, ⟨tree, hbody, hsized, rfl⟩, rfl⟩
      rw [← List.append_nil (encode after)]
      exact notAhead_ws hafter (List.all_iff_forall_prop.mp (by decide)) (notAhead_nil _)
    · have hspace := recognizes_skipWs.complete after () [] hafter (notAhead_nil _)
      rw [List.append_nil] at hspace
      exact congrArg Prod.snd (Except.ok.inj hspace)

/-- A document whose containers, keys, strings and objects are within the limits. -/
def WithinLimits (limits : Limits) (tree : Tree) : Prop :=
  Sized limits limits.maxDepth tree ∧
    ∀ fields ∈ (Node.ofTree tree).objects, StrictObject limits fields

/-- Without an array that would be cut, the parser accepts the documents within the limits. -/
theorem parseBounded_eq_ok_iff {limits : Limits} {bytes : List UInt8}
    (hcap : ∀ tree, Denotes bytes tree → ∀ items ∈ (Node.ofTree tree).arrays,
      items.length ≤ limits.maxArrayInspect) (node : Node) :
    parseBounded bytes limits = .ok node ↔ bytes.length ≤ limits.maxBytes ∧
      ∃ tree, Denotes bytes tree ∧ WithinLimits limits tree ∧ node = Node.ofTree tree := by
  rw [parseBounded_eq_ok]
  constructor
  · rintro ⟨doc, hread, hstrict, rfl⟩
    obtain ⟨hlength, tree, hdenotes, hsized, rfl⟩ := readDocument_eq_ok.mp hread
    have hshort := hcap tree hdenotes
    rw [Node.inspected_of_wide hshort] at hstrict
    exact ⟨hlength, tree, hdenotes, ⟨hsized, hstrict⟩, cut_ofTree hshort⟩
  · rintro ⟨hlength, tree, hdenotes, ⟨hsized, hstrict⟩, rfl⟩
    have hshort := hcap tree hdenotes
    refine ⟨_, readDocument_eq_ok.mpr ⟨hlength, tree, hdenotes, hsized, rfl⟩, ?_, ?_⟩
    · rwa [Node.inspected_of_wide hshort]
    · exact (cut_ofTree hshort).symm

end Deblob.Fingerprint
