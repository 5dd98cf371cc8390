import MergeOnRead.Manifest.FileContent
import MergeOnRead.Options.Calls
import MergeOnRead.Proofs.Numerals
import Mathlib.Tactic.SplitIfs

/-!
# Options read back what was set

A parameter is set to the text of a value, and the text is read back as a value of the parameter's
type.  Texts, truth values and integers come back as they were set.  A member of an enumeration
comes back if and only if the text of the value behind it spells the member, and no member that is
declared earlier (`OptionType.Restores`); the text of a number does not spell the number, and the
text behind one member may be the name of another.

Strategy:

* `convert_stored_iff` says which values are restored, type by type; for members it is a statement
  about the first one that a text spells (`find?_eq_some_iff_takeWhile`);
* a set changes what one object holds under one key, and nothing else (`raw?_set_self`,
  `raw?_set_ne`);
* `Holds` says that some objects hold a value; one call preserves it (`holds_perform`), so any run
  of calls does (`holds_run`), as long as the key is not set anew.
-/

namespace MergeOnRead

/-! ## Values that are restored -/

namespace OptionType

/-- The values of a type.  Integers have at most 4300 digits, and truth values are integers. -/
def HasValue : OptionType → Value → Prop
  | .text, .text _ => True
  | .bool, .bool _ => True
  | .int, .int n => (Nat.toDigits 10 n.natAbs).length ≤ Numeral.maxDigits
  | .int, .bool _ => True
  | .enumeration e, .member m => m ∈ e.members
  | _, _ => False

/-- A text spells a member if it is the value behind it, or its name in any case and with any blanks
around. -/
def Spells (text : String) (m : Member) : Prop :=
  labelKey m.label = .atom (.text text) ∨ Text.lower m.name = Text.lower (Text.trimmed text)

/-- The values that are restored from the text they are stored as: a member must be the first that
its text spells, and a truth value does not become an integer. -/
def Restores : OptionType → Value → Prop
  | .enumeration e, .member m =>
    Spells m.label.plain m ∧ ∀ earlier ∈ e.members.takeWhile (· ≠ m), ¬Spells m.label.plain earlier
  | .int, .bool _ => False
  | _, _ => True

variable {e : Enumeration} {m : Member} {t : String} {v : Value}

/-- The element found is the first one with the property. -/
theorem find?_eq_some_iff_takeWhile {α : Type} [DecidableEq α] {p : α → Bool} {x : α}
    {xs : List α} (h : x ∈ xs) :
    xs.find? p = some x ↔ p x = true ∧ ∀ y ∈ xs.takeWhile (· ≠ x), p y = false := by
  induction xs with
  | nil => cases h
  | cons y ys ih =>
    by_cases hxy : y = x
    · subst hxy
      rw [List.takeWhile_cons_of_neg (by simp)]
      simp only [List.not_mem_nil, false_implies, implies_true, and_true]
      refine ⟨fun hfound => List.find?_some hfound, fun hp => List.find?_cons_of_pos hp⟩
    · have hmem : x ∈ ys := (List.mem_cons.1 h).resolve_left (Ne.symm hxy)
      rw [List.takeWhile_cons_of_pos (by simpa using hxy), List.forall_mem_cons]
      cases hp : p y with
      | true =>
        rw [List.find?_cons_of_pos hp, Option.some_inj]
        simp [hxy]
      | false =>
        rw [List.find?_cons_of_neg (by simp [hp]), ih hmem]
        simp

theorem denotes_text_iff : denotes (.text t) m = true ↔ Spells t m := by
  unfold denotes Spells
  show (decide (labelKey m.label = .atom (.text t)) && true ||
    Text.lower m.name == Text.lower (Text.trimmed t)) = true ↔ _
  rw [Bool.and_true, Bool.or_eq_true, decide_eq_true_iff, beq_iff_eq]

/-- A text can be compared with everything. -/
theorem signals_text (t : String) (m : Member) : signals (.text t) m = false := by
  unfold signals
  split
  · next heq => cases heq; rfl
  · rfl

/-- A text is read as the first member that it spells. -/
theorem toMember_text_iff (h : m ∈ e.members) :
    toMember e (.text t) = .ok m ↔
      Spells t m ∧ ∀ earlier ∈ e.members.takeWhile (· ≠ m), ¬Spells t earlier := by
  have hfirst : e.members.find? (denotes (.text t)) = some m ↔
      Spells t m ∧ ∀ earlier ∈ e.members.takeWhile (· ≠ m), ¬Spells t earlier := by
    rw [find?_eq_some_iff_takeWhile h]
    simp only [← denotes_text_iff, Bool.not_eq_true]
  rw [← hfirst]
  have hsignals : e.members.any (signals (.text t)) = false := by
    rw [List.any_eq_false]
    intro m' _
    rw [signals_text]
    exact Bool.false_ne_true
  unfold toMember
  simp only [hsignals, Bool.false_eq_true, if_false]
  cases e.members.find? (denotes (.text t)) with
  | none => simp
  | some m' => simp

/-- The text of an integer is read as the integer. -/
theorem toInt_text {n : Int} (h : (Nat.toDigits 10 n.natAbs).length ≤ Numeral.maxDigits) :
    toInt (.text (toString n)) = .ok n := by
  have htrimmed : (Text.trimmed (toString n)).toList = (toString n).toList := by
    unfold Text.trimmed
    rw [String.toList_ofList]
    apply Text.trimBlanks_eq_self
    intro c hc
    rcases Numeral.eq_minus_or_isDigit hc with rfl | hdigit
    · decide +kernel
    · exact Text.isBlank_of_isDigit hdigit
  unfold toInt
  simp only [Numeral.readInt_eq htrimmed, if_neg (Nat.not_lt.2 h)]

theorem toBool_text (b : Bool) : toBool (.text (optionText (.bool b))) = .ok b := by
  have hword : Text.trimmed (Text.lower (optionText (.bool b))) = optionText (.bool b) := by
    cases b <;> decide +kernel
  unfold toBool
  simp only [hword]
  cases b <;> rfl

/-- The text of a truth value has no digit in it. -/
theorem toInt_truth (b : Bool) :
    toInt (.text (optionText (.bool b))) =
      .error (.notInt (Text.trimmed (optionText (.bool b)))) := by
  have hletters : Numeral.symbols (Text.trimmed (optionText (.bool b))) =
      (optionText (.bool b)).toList.map .other := by
    cases b <;> decide +kernel
  unfold toInt Numeral.readInt
  simp only [hletters]
  cases b <;> rfl

/-- **What is restored**: a value of a type comes back from its text if and only if it is one of
those that are restored. -/
theorem convert_stored_iff {type : OptionType} (h : type.HasValue v) :
    type.convert (.text (optionText v)) = .ok v ↔ type.Restores v := by
  unfold HasValue at h
  split at h
  · exact iff_of_true rfl trivial
  · next b =>
    refine iff_of_true ?_ trivial
    show (toBool (.text (optionText (.bool b)))).map Value.bool = _
    rw [toBool_text]
    rfl
  · next n =>
    refine iff_of_true ?_ trivial
    show (toInt (.text (toString n))).map Value.int = _
    rw [toInt_text h]
    rfl
  · next b =>
    refine iff_of_false ?_ id
    show ¬(toInt (.text (optionText (.bool b)))).map Value.int = _
    rw [toInt_truth]
    intro hmap
    cases hmap
  · next e m =>
    show (toMember e (.text m.label.plain)).map Value.member = .ok (.member m) ↔ _
    refine Iff.trans ?_ (toMember_text_iff h)
    cases toMember e (.text m.label.plain) with
    | error err => simp [Except.map]
    | ok m' => simp [Except.map]
  · exact h.elim

/-- No content of a file comes back: its text is a numeral, which is neither the number behind a
content nor the name of one. -/
theorem not_restores_content (c : FileContent) :
    ¬(OptionType.enumeration FileContent.enumeration).Restores (.member c.member) := by
  rintro ⟨hspells, -⟩
  rcases hspells with hvalue | hname
  · cases hvalue
  · revert hname
    cases c <;> decide +kernel

end OptionType

namespace Options

/-! ## One object -/

section Store

variable {key other : String} {v : Value}

theorem lookup_store_self (key : String) (v : Value) (entries : List (String × Value)) :
    (store key v entries).lookup key = some v := by
  induction entries with
  | nil => exact List.lookup_cons_self
  | cons entry rest ih =>
    unfold store
    split_ifs with hkey
    · subst hkey
      exact List.lookup_cons_self
    · rw [List.lookup_cons, beq_false_of_ne (Ne.symm hkey)]
      exact ih

theorem lookup_store_ne (h : other ≠ key) (v : Value) (entries : List (String × Value)) :
    (store key v entries).lookup other = entries.lookup other := by
  induction entries with
  | nil =>
    unfold store
    rw [List.lookup_cons, beq_false_of_ne h]
  | cons entry rest ih =>
    unfold store
    split_ifs with hkey
    · subst hkey
      rw [List.lookup_cons, List.lookup_cons, beq_false_of_ne h]
    · rw [List.lookup_cons, List.lookup_cons, ih]

end Store

variable {objects : List Options} {o o' : Options} {s s' : Setting} {v : Value} {key : String}

theorem raw?_set_self (o : Options) (s : Setting) (v : Value) :
    (o.set s v).raw? s.key = some (.text (optionText v)) :=
  lookup_store_self ..

/-- A set changes nothing under other keys. -/
theorem raw?_set_ne (h : key ≠ s.key) (o : Options) (v : Value) :
    (o.set s v).raw? key = o.raw? key :=
  lookup_store_ne h ..

/-- A stored text is converted; a fallback is not asked for. -/
theorem get_eq_convert {t : String} (h : o.raw? s.key = some (.text t)) (d : Value) :
    o.get s d = s.type.convert (.text t) := by
  unfold get
  rw [h]
  rfl

/-- Options with the same value under a key read the same there. -/
theorem get_congr (h : o.raw? s.key = o'.raw? s.key) (d : Value) : o.get s d = o'.get s d := by
  unfold get
  rw [h]

/-! ## Calls -/

theorem perform_set_self {n : Nat} (h : objects[n]? = some o) (s : Setting) (v : Value) :
    (perform objects (.set n s v))[n]? = some (o.set s v) := by
  show (objects.modify n _)[n]? = _
  rw [List.getElem?_modify_eq, h]
  rfl

/-- A set changes no other object. -/
theorem perform_set_ne {n m : Nat} (h : n ≠ m) (s : Setting) (v : Value) :
    (perform objects (.set n s v))[m]? = objects[m]? :=
  List.getElem?_modify_ne _ _ h

/-- Some objects hold a value under a key. -/
def Holds (key : String) (v : Value) (objects : List Options) (held : List Nat) : Prop :=
  ∀ n ∈ held, ∃ o, objects[n]? = some o ∧ o.raw? key = some v

/-- After a set, its object holds the text of the value. -/
theorem holds_set {n : Nat} (h : n < objects.length) (s : Setting) (v : Value) :
    Holds s.key (.text (optionText v)) (perform objects (.set n s v)) [n] := by
  intro m hm
  obtain rfl := List.mem_singleton.1 hm
  exact ⟨_, perform_set_self (List.getElem?_eq_getElem h) s v, raw?_set_self ..⟩

/-- One call preserves what the holders hold. -/
theorem holds_perform {held : List Nat} (h : Holds key v objects held) (call : Call) :
    Holds key v (perform objects call) (holdersAfter key objects.length held call) := by
  cases call with
  | set n s w =>
    intro m hm
    simp only [holdersAfter] at hm
    split_ifs at hm with hkey
    · obtain ⟨hheld, hne⟩ := List.mem_filter.1 hm
      rw [perform_set_ne (Ne.symm (of_decide_eq_true hne))]
      exact h m hheld
    · obtain ⟨o, ho, hraw⟩ := h m hm
      by_cases hnm : n = m
      · subst hnm
        exact ⟨_, perform_set_self ho s w, (raw?_set_ne (Ne.symm hkey) o w).trans hraw⟩
      · rw [perform_set_ne hnm]
        exact ⟨o, ho, hraw⟩
  | copy n =>
    have hold : Holds key v (perform objects (.copy n)) held := by
      intro m hm
      obtain ⟨o, ho, hraw⟩ := h m hm
      have hlt : m < objects.length := (List.getElem?_eq_some_iff.1 ho).1
      exact ⟨o, (List.getElem?_append_left hlt).trans ho, hraw⟩
    simp only [holdersAfter]
    split_ifs with hn
    · intro m hm
      rcases List.mem_append.1 hm with hm | hm
      · exact hold m hm
      · -- the copy stands behind all objects
        obtain rfl := List.mem_singleton.1 hm
        obtain ⟨o, ho, hraw⟩ := h n hn
        refine ⟨o, ?_, hraw⟩
        unfold perform
        simp only [ho, Option.toList_some]
        exact List.getElem?_concat_length
    · exact hold

/-- Any run of calls preserves what the holders hold. -/
theorem holds_run {held : List Nat} (h : Holds key v objects held) (calls : List Call) :
    Holds key v (run objects calls) (holders key objects held calls) := by
  induction calls generalizing objects held with
  | nil => exact h
  | cons call calls ih => exact ih (holds_perform h call)

/-- What a set does to the objects, and what later calls leave of it. -/
structure SetAndKept (objects : List Options) (n : Nat) (s : Setting) (v : Value)
    (calls : List Call) : Prop where
  /-- The object, and every copy that descends from it, reads the value if and only if its text
  restores it, with whatever default; as long as the key is not set anew. -/
  read_iff : ∀ m ∈ holders s.key (perform objects (.set n s v)) [n] calls,
    ∃ o, (run objects (.set n s v :: calls))[m]? = some o ∧ o.contains s = true ∧
      ∀ d, o.get s d = .ok v ↔ s.type.Restores v
  /-- The other keys of the object, and all keys of the other objects, read as before. -/
  frame : ∀ m o, objects[m]? = some o → ∃ o', (perform objects (.set n s v))[m]? = some o' ∧
    ∀ s' : Setting, m ≠ n ∨ s'.key ≠ s.key →
      o'.contains s' = o.contains s' ∧ ∀ d, o'.get s' d = o.get s' d

/-- **Options store what was set.**  A value comes back from every object that still holds it, if
and only if it is restored from its text. -/
theorem set_and_kept {n : Nat} (hn : n < objects.length) (hv : s.type.HasValue v)
    (calls : List Call) : SetAndKept objects n s v calls where
  read_iff := by
    intro m hm
    obtain ⟨o, ho, hraw⟩ := holds_run (holds_set hn s v) calls m hm
    refine ⟨o, ho, ?_, fun d => ?_⟩
    · unfold contains
      rw [hraw]
      rfl
    · rw [get_eq_convert hraw]
      exact OptionType.convert_stored_iff hv
  frame := by
    intro m o ho
    by_cases hnm : n = m
    · subst hnm
      refine ⟨_, perform_set_self ho s v, fun s' hs' => ?_⟩
      have hkey : s'.key ≠ s.key := hs'.resolve_left (not_not_intro rfl)
      have hraw := raw?_set_ne hkey o v
      refine ⟨?_, get_congr hraw⟩
      unfold contains
      rw [hraw]
    · rw [perform_set_ne hnm]
      exact ⟨o, ho, fun s' _ => ⟨rfl, fun d => rfl⟩⟩

/-- A parameter that takes a content of a file is set, and its options are copied: neither the
object nor its copy reads the content. -/
theorem set_and_kept_content :
    let setting : Setting := ⟨"content", .enumeration FileContent.enumeration, "", .null⟩
    let content : Value := .member FileContent.positionDeletes.member
    SetAndKept [empty] 0 setting content [.copy 0] ∧
      ∀ n < 2, ∃ o, (run [empty] [.set 0 setting content, .copy 0])[n]? = some o ∧
        ∀ d, o.get setting d ≠ .ok content := by
  intro setting content
  have hvalue : setting.type.HasValue content := by
    show _ ∈ FileContent.enumeration.members
    decide
  have hkept : SetAndKept [empty] 0 setting content [.copy 0] :=
    set_and_kept (by decide) hvalue [.copy 0]
  refine ⟨hkept, fun n hn => ?_⟩
  have hholds :
      n ∈ holders setting.key (perform [empty] (.set 0 setting content)) [0] [.copy 0] := by
    show n ∈ [0, 1]
    simp
    omega
  obtain ⟨o, ho, -, hread⟩ := hkept.read_iff n hholds
  exact ⟨o, ho, fun d hd => OptionType.not_restores_content .positionDeletes ((hread d).1 hd)⟩

end Options

end MergeOnRead
