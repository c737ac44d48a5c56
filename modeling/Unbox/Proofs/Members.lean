import Mathlib.Data.List.Nodup
import Unbox.Proofs.Grammar
import Unbox.Settings

/-!
# Settings are read by name

An object gives each setting by the member with its name. Which settings are read depends on the values
of these members alone: not on their order, on other members or on blanks.

* `Member` : what a member of an object says about the settings, with `Member.key` and the texts that its
  value can have, `Member.IsWritten`;
* `IsObject ms cs` : a text of an object with the members `ms`, however it is spelled and spaced;
* `readMembers_append`, `read_of_isObject` : it is read, one member after the other;
* `foldl_take_perm` : the order of members with different names does not matter;
* `read_by_name` : the settings of an object.
-/

namespace Unbox.Settings
open Json

/-! ## The texts of objects -/

/-- A member of an object: one of the settings with its value, or any other. -/
inductive Member where
  | collectReport (value : Bool)
  | maxDepth (value : Nat)
  | logLevel (value : Option String)
  | other (key : String)

/-- The names of the settings. -/
def names : List String := ["collect_report", "max_refinement_depth", "log_level"]

namespace Member

def key : Member → String
  | collectReport _ => "collect_report"
  | maxDepth _ => "max_refinement_depth"
  | logLevel _ => "log_level"
  | other key => key

def isKnown (m : Member) : Bool := names.contains m.key

/-- The texts of the value of a member. The depth has no sign, no fraction and no exponent and fits into
64 bits, a level is a text or absent, and other members have any value. -/
def IsWritten : Member → List Char → Prop
  | collectReport true, v => v = ['t', 'r', 'u', 'e']
  | collectReport false, v => v = ['f', 'a', 'l', 's', 'e']
  | maxDepth n, v => n ≤ maxNatural ∧ v = Nat.toDigits 10 n
  | logLevel none, v => v = ['n', 'u', 'l', 'l']
  | logLevel (some level), v => ∃ lit, Spells IsCodePoint lit level.toList ∧ v = '"' :: (lit ++ ['"'])
  | other key, v => key ∉ names ∧ Derives .value v

end Member

/-- The text of a member, from the blanks before it to those after it. Its key can be spelled in any way
that stands for it. -/
inductive IsMember : Member → List Char → Prop
  | mk {m : Member} {a lit b c v d : List Char} (ha : IsBlanks a)
      (hkey : Spells IsCodePoint lit m.key.toList) (hb : IsBlanks b) (hc : IsBlanks c)
      (hv : m.IsWritten v) (hd : IsBlanks d) :
      IsMember m (a ++ '"' :: (lit ++ '"' :: (b ++ ':' :: (c ++ (v ++ d)))))

inductive IsMembers : List Member → List Char → Prop
  | last {m : Member} {cs : List Char} (h : IsMember m cs) : IsMembers [m] cs
  | cons {m : Member} {cs : List Char} {ms : List Member} {rest : List Char} (h : IsMember m cs)
      (hs : IsMembers ms rest) : IsMembers (m :: ms) (cs ++ ',' :: rest)

inductive IsObject : List Member → List Char → Prop
  | empty {a b c : List Char} (ha : IsBlanks a) (hb : IsBlanks b) (hc : IsBlanks c) :
      IsObject [] (a ++ '{' :: (b ++ '}' :: c))
  | members {a cs c : List Char} {ms : List Member} (ha : IsBlanks a) (h : IsMembers ms cs)
      (hc : IsBlanks c) : IsObject ms (a ++ '{' :: (cs ++ '}' :: c))

/-- No setting is given twice. -/
def Once (ms : List Member) : Prop := ((ms.filter Member.isKnown).map Member.key).Nodup

/-! ## One member -/

namespace Found

/-- With what a member says. -/
def take (f : Found) : Member → Found
  | .collectReport b => { f with collectReport := some b }
  | .maxDepth n => { f with maxDepth := some n }
  | .logLevel level => { f with logLevel := some level }
  | .other _ => f

/-- The setting of the member was not found before. -/
def Lacks (f : Found) : Member → Prop
  | .collectReport _ => f.collectReport = none
  | .maxDepth _ => f.maxDepth = none
  | .logLevel _ => f.logLevel = none
  | .other _ => True

theorem lacks_take {f : Found} {m n : Member} (h : f.Lacks n) (hne : m.isKnown = true → m.key ≠ n.key) :
    (f.take m).Lacks n := by
  cases m with
  | other key => exact h
  | collectReport b =>
    cases n with
    | collectReport b' => exact absurd rfl (hne rfl)
    | _ => exact h
  | maxDepth d =>
    cases n with
    | maxDepth d' => exact absurd rfl (hne rfl)
    | _ => exact h
  | logLevel level =>
    cases n with
    | logLevel level' => exact absurd rfl (hne rfl)
    | _ => exact h

end Found

theorem readColon_append {b : List Char} (hb : IsBlanks b) (cs : List Char) :
    readColon (b ++ ':' :: cs) = .ok ((), cs) := by
  rw [readColon, skipBlanks_append hb]
  rfl

theorem readBool_append {c : List Char} (hc : IsBlanks c) {value : Bool} {v : List Char}
    (hv : (Member.collectReport value).IsWritten v) (cs : List Char) :
    readBool (c ++ (v ++ cs)) = .ok (value, cs) := by
  rw [readBool, skipBlanks_append hc]
  cases value <;> cases hv <;> rfl

theorem readLevel_append {c : List Char} (hc : IsBlanks c) {level : Option String} {v : List Char}
    (hv : (Member.logLevel level).IsWritten v) (cs : List Char) :
    readOptional readString (c ++ (v ++ cs)) = .ok (level, cs) := by
  rw [readOptional, skipBlanks_append hc]
  cases level with
  | none =>
    cases hv
    rfl
  | some level =>
    obtain ⟨lit, hlit, rfl⟩ := hv
    have hquote : skipBlanks ('"' :: (lit ++ '"' :: cs)) = '"' :: (lit ++ '"' :: cs) := rfl
    have hread : readString ('"' :: (lit ++ '"' :: cs)) = .ok (level, cs) := by
      simp only [readString, hquote, readText_append hlit, ok_bind, String.ofList_toList]
      rfl
    rw [List.cons_append, List.append_assoc, List.singleton_append, hquote]
    change (readString ('"' :: (lit ++ '"' :: cs)) >>= fun r => pure (some r.1, r.2)) = _
    rw [hread]
    rfl

theorem readMember_append {m : Member} {b c v cs : List Char} (hb : IsBlanks b) (hc : IsBlanks c)
    (hv : m.IsWritten v) (hcs : Stops cs) {f : Found} (hf : f.Lacks m) :
    readMember m.key f (b ++ ':' :: (c ++ (v ++ cs))) = .ok (f.take m, cs) := by
  have hcolon := readColon_append hb (c ++ (v ++ cs))
  cases m with
  | collectReport value =>
    have hf : f.collectReport = none := hf
    simp only [readMember, Member.key, if_true, hf, hcolon, readBool_append hc hv, ok_bind]
    rfl
  | maxDepth n =>
    obtain ⟨hn, rfl⟩ := hv
    have hf : f.maxDepth = none := hf
    simp only [readMember, Member.key, if_true, hf, hcolon, readNatural_append hc hn hcs,
      ok_bind]
    rfl
  | logLevel level =>
    have hf : f.logLevel = none := hf
    simp only [readMember, Member.key, if_true, hf, hcolon, readLevel_append hc hv, ok_bind]
    rfl
  | other key =>
    obtain ⟨hkey, hv⟩ := hv
    simp only [names, List.mem_cons, List.not_mem_nil, or_false, not_or] at hkey
    simp only [readMember, Member.key, hkey, if_false, hcolon, skipValue_append hc hv hcs, ok_bind]
    rfl

/-! ## All members -/

/-- Before the first member there is nothing, before every other one a comma. -/
def Leads : Bool → List Char → List Char → Prop
  | true, text, cs => text = cs
  | false, text, cs => ∃ d, IsBlanks d ∧ text = d ++ ',' :: cs

theorem readKey_of_leads {isFirst : Bool} {a lit : List Char} {key : String} {text cs : List Char}
    (ha : IsBlanks a) (hkey : Spells IsCodePoint lit key.toList)
    (h : Leads isFirst text (a ++ '"' :: (lit ++ '"' :: cs))) :
    readKey isFirst text = .ok (some key, cs) := by
  have hskip : skipBlanks (a ++ '"' :: (lit ++ '"' :: cs)) = '"' :: (lit ++ '"' :: cs) :=
    skipBlanks_append ha _
  have hquoted : readKey.quoted ('"' :: (lit ++ '"' :: cs)) = .ok (some key, cs) := by
    rw [readKey.quoted, if_pos rfl, readText_append hkey, ok_bind]
    dsimp only
    rw [String.ofList_toList]
    rfl
  cases isFirst with
  | true =>
    obtain rfl : text = _ := h
    rw [readKey, hskip]
    exact hquoted
  | false =>
    obtain ⟨d, hd, rfl⟩ := h
    have hcomma : skipBlanks (d ++ ',' :: (a ++ '"' :: (lit ++ '"' :: cs))) =
        ',' :: (a ++ '"' :: (lit ++ '"' :: cs)) := skipBlanks_append hd _
    rw [readKey, hcomma]
    dsimp only
    rw [if_neg (by decide), if_neg (by decide), if_pos rfl, hskip]
    exact hquoted

theorem readKey_end (isFirst : Bool) {d : List Char} (hd : IsBlanks d) (cs : List Char) :
    readKey isFirst (d ++ '}' :: cs) = .ok (none, '}' :: cs) := by
  rw [readKey, skipBlanks_append hd]
  rfl

theorem readMembers_end (fuel : Nat) (isFirst : Bool) (f : Found) {d : List Char} (hd : IsBlanks d)
    (cs : List Char) : readMembers (fuel + 1) isFirst f (d ++ '}' :: cs) = .ok (f, '}' :: cs) := by
  rw [readMembers, readKey_end isFirst hd]
  rfl

/-- A member is read, and what it says is kept, before those after it are. -/
theorem readMembers_of_isMember {m : Member} {cs : List Char} (h : IsMember m cs) {x : Char}
    (hx : x = ',' ∨ x = ']' ∨ x = '}') {rest text : List Char} {isFirst : Bool}
    (htext : Leads isFirst text (cs ++ x :: rest)) {f : Found} (hf : f.Lacks m) (fuel : Nat) :
    ∃ d, IsBlanks d ∧
      readMembers (fuel + 1) isFirst f text = readMembers fuel false (f.take m) (d ++ x :: rest) := by
  cases h with
  | @mk a lit b c v d ha hkey hb hc hv hd =>
    refine ⟨d, hd, ?_⟩
    simp only [List.append_assoc, List.cons_append] at htext
    rw [readMembers, readKey_of_leads ha hkey htext, ok_bind]
    dsimp only
    rw [readMember_append hb hc hv (.blanks hd (stops_cons hx rest)) hf]
    rfl

theorem Once.tail {m : Member} {ms : List Member} (h : Once (m :: ms)) : Once ms :=
  List.Nodup.sublist ((List.sublist_cons_self m ms).filter _ |>.map _) h

theorem Once.ne {m n : Member} {ms : List Member} (h : Once (m :: ms)) (hn : n ∈ ms)
    (hknown : m.isKnown = true) : m.key ≠ n.key := by
  intro heq
  rw [Once, List.filter_cons_of_pos hknown, List.map_cons, List.nodup_cons] at h
  refine h.1 (List.mem_map.mpr ⟨n, List.mem_filter.mpr ⟨hn, ?_⟩, heq.symm⟩)
  rwa [Member.isKnown, ← heq]

/-- The members are read in their order. What was found before them is none of their settings, and no
setting is given twice, so that no member comes too late. -/
theorem readMembers_append {ms : List Member} {cs : List Char} (h : IsMembers ms cs) {fuel : Nat}
    (hfuel : ms.length < fuel) {isFirst : Bool} {text rest : List Char}
    (htext : Leads isFirst text (cs ++ '}' :: rest)) {f : Found} (hf : ∀ m ∈ ms, f.Lacks m)
    (honce : Once ms) :
    readMembers fuel isFirst f text = .ok (ms.foldl Found.take f, '}' :: rest) := by
  induction h generalizing fuel isFirst text f with
  | @last m cs h =>
    rw [List.length_singleton] at hfuel
    obtain ⟨k, rfl⟩ : ∃ k, fuel = k + 2 := ⟨fuel - 2, by omega⟩
    obtain ⟨d, hd, hread⟩ := readMembers_of_isMember h (.inr (.inr rfl)) htext
      (hf m List.mem_cons_self) (k + 1)
    rw [hread, readMembers_end k false _ hd]
    rfl
  | @cons m cs ms more h _ ih =>
    obtain ⟨k, rfl⟩ : ∃ k, fuel = k + 1 := ⟨fuel - 1, by omega⟩
    rw [List.append_assoc, List.cons_append] at htext
    obtain ⟨d, hd, hread⟩ := readMembers_of_isMember h (.inl rfl) htext (hf m List.mem_cons_self) k
    rw [hread, List.foldl_cons]
    have hnext : Leads false (d ++ ',' :: (more ++ '}' :: rest)) (more ++ '}' :: rest) := ⟨d, hd, rfl⟩
    refine ih (Nat.lt_of_succ_lt_succ hfuel) hnext (fun n hn => ?_) honce.tail
    exact Found.lacks_take (hf n (List.mem_cons_of_mem m hn)) (honce.ne hn)

theorem IsMembers.length_le {ms : List Member} {cs : List Char} (h : IsMembers ms cs) :
    ms.length ≤ cs.length := by
  induction h with
  | last h =>
    cases h
    simp only [List.length_append, List.length_cons, List.length_nil]
    omega
  | cons _ _ ih =>
    simp only [List.length_cons, List.length_append]
    omega

theorem lacks_empty (m : Member) : ({} : Found).Lacks m := by
  cases m <;> trivial

theorem readObject_of_readMembers {cs c : List Char} {f : Found}
    (h : readMembers (cs.length + 1) true {} cs = .ok (f, '}' :: c)) :
    readObject cs = .ok (f.settings, c) := by
  rw [readObject, h]
  rfl

/-- The text of an object is read, and gives the settings that its members say. -/
theorem read_of_isObject {ms : List Member} {text : String} (h : IsObject ms text.toList)
    (honce : Once ms) : read text = .ok (ms.foldl Found.take {}).settings := by
  obtain ⟨a, body, c, htext, ha, hc, hobject⟩ : ∃ a body c, text.toList = a ++ '{' :: body ∧
      IsBlanks a ∧ IsBlanks c ∧ readObject body = .ok ((ms.foldl Found.take {}).settings, c) := by
    generalize text.toList = cs at h
    cases h with
    | @empty a b c ha hb hc =>
      exact ⟨a, _, c, rfl, ha, hc, readObject_of_readMembers (readMembers_end _ true {} hb c)⟩
    | @members a cs c _ ha h hc =>
      refine ⟨a, _, c, rfl, ha, hc, readObject_of_readMembers ?_⟩
      refine readMembers_append h ?_ (show Leads true _ _ from rfl) (fun m _ => lacks_empty m) honce
      have := h.length_le
      simp only [List.length_append]
      omega
  have hbrace : skipBlanks (a ++ '{' :: body) = '{' :: body := skipBlanks_append ha _
  have hend : readEnd c = .ok () := by
    have hnone := skipBlanks_append hc []
    rw [List.append_nil] at hnone
    rw [readEnd, hnone]
    rfl
  rw [read, htext, hbrace]
  change (readObject body >>= fun r => readEnd r.2 >>= fun _ => pure r.1) = _
  rw [hobject, ok_bind, hend]
  rfl

/-! ## Order, other members and defaults -/

/-- The members of the form `setting`, which are those named `key`, are kept where `get` finds them. -/
structure Keeps {α : Type} (setting : α → Member) (key : String) (get : Found → Option α) : Prop where
  key_setting : ∀ a, (setting a).key = key
  mem_names : key ∈ names
  get_take : ∀ (f : Found) a, get (f.take (setting a)) = some a
  get_other : ∀ (f : Found) m, m.key ≠ key → get (f.take m) = get f
  get_empty : get {} = none

theorem keeps_collectReport : Keeps .collectReport "collect_report" Found.collectReport := by
  refine ⟨fun _ => rfl, by decide, fun _ _ => rfl, fun f m h => ?_, rfl⟩
  cases m with
  | collectReport value => exact absurd rfl h
  | _ => rfl

theorem keeps_maxDepth : Keeps .maxDepth "max_refinement_depth" Found.maxDepth := by
  refine ⟨fun _ => rfl, by decide, fun _ _ => rfl, fun f m h => ?_, rfl⟩
  cases m with
  | maxDepth value => exact absurd rfl h
  | _ => rfl

theorem keeps_logLevel : Keeps .logLevel "log_level" Found.logLevel := by
  refine ⟨fun _ => rfl, by decide, fun _ _ => rfl, fun f m h => ?_, rfl⟩
  cases m with
  | logLevel value => exact absurd rfl h
  | _ => rfl

/-- The value of a setting that the members give: that of the member with its name, or else its default. -/
def Gives {α : Type} (setting : α → Member) (key : String) (ms : List Member) (value default : α) : Prop :=
  (∀ a, setting a ∈ ms → value = a) ∧ (key ∉ ms.map Member.key → value = default)

namespace Keeps
variable {α : Type} {setting : α → Member} {key : String} {get : Found → Option α} {ms : List Member}

theorem get_of_not_mem (hk : Keeps setting key get) (h : key ∉ ms.map Member.key) (f : Found) :
    get (ms.foldl Found.take f) = get f := by
  induction ms generalizing f with
  | nil => rfl
  | cons m ms ih =>
    rw [List.map_cons, List.mem_cons, not_or] at h
    rw [List.foldl_cons, ih h.2, hk.get_other f m (Ne.symm h.1)]

theorem get_of_mem (hk : Keeps setting key get) (honce : Once ms) {a : α} (h : setting a ∈ ms)
    (f : Found) : get (ms.foldl Found.take f) = some a := by
  induction ms generalizing f with
  | nil => cases h
  | cons m ms ih =>
    rcases List.mem_cons.mp h with rfl | h
    · have hnot : key ∉ ms.map Member.key := by
        intro hmem
        obtain ⟨n, hn, hkey⟩ := List.mem_map.mp hmem
        refine honce.ne hn ?_ ((hk.key_setting a).trans hkey.symm)
        rw [Member.isKnown, hk.key_setting, List.contains_iff_mem]
        exact hk.mem_names
      rw [List.foldl_cons, hk.get_of_not_mem hnot, hk.get_take]
    · exact ih honce.tail h (f.take m)

theorem gives (hk : Keeps setting key get) (honce : Once ms) (default : α) :
    Gives setting key ms ((get (ms.foldl Found.take {})).getD default) default := by
  constructor
  · intro a ha
    rw [hk.get_of_mem honce ha, Option.getD_some]
  · intro h
    rw [hk.get_of_not_mem h, hk.get_empty, Option.getD_none]

end Keeps

theorem take_of_unknown {m : Member} (h : m.isKnown = false) (f : Found) : f.take m = f := by
  cases m with
  | other key => rfl
  | _ => cases h

theorem foldl_take_filter (ms : List Member) (f : Found) :
    ms.foldl Found.take f = (ms.filter Member.isKnown).foldl Found.take f := by
  induction ms generalizing f with
  | nil => rfl
  | cons m ms ih =>
    cases h : m.isKnown with
    | true => rw [List.filter_cons_of_pos h, List.foldl_cons, List.foldl_cons, ih]
    | false => rw [List.filter_cons_of_neg (by simp [h]), List.foldl_cons, take_of_unknown h, ih]

theorem take_comm {m n : Member} (h : m.key = n.key → m = n) (f : Found) :
    (f.take m).take n = (f.take n).take m := by
  cases m with
  | other key => rfl
  | collectReport b =>
    cases n with
    | collectReport b' => rw [h rfl]
    | _ => rfl
  | maxDepth d =>
    cases n with
    | maxDepth d' => rw [h rfl]
    | _ => rfl
  | logLevel level =>
    cases n with
    | logLevel level' => rw [h rfl]
    | _ => rfl

/-- Only the settings among the members matter, and not their order. -/
theorem foldl_take_perm {ms ms' : List Member} (honce : Once ms)
    (hperm : (ms'.filter Member.isKnown).Perm (ms.filter Member.isKnown)) (f : Found) :
    ms'.foldl Found.take f = ms.foldl Found.take f := by
  rw [foldl_take_filter ms', foldl_take_filter ms]
  refine hperm.foldl_eq' (fun m hm n hn f => take_comm (fun hkey => ?_) f) f
  exact List.inj_on_of_nodup_map honce (hperm.mem_iff.mp hm) (hperm.mem_iff.mp hn) hkey

/-- The text of an object in which no setting is given twice is read. Each setting is that of the member
with its name, if there is one, and else has its default. Every other text with the same settings gives
the same, in whatever order, with whatever other members and with blanks wherever there can be any. -/
theorem read_by_name {ms : List Member} {text : String} (h : IsObject ms text.toList)
    (honce : Once ms) :
    ∃ s : Settings, read text = .ok s ∧
      Gives .collectReport "collect_report" ms s.collectReport ({} : Settings).collectReport ∧
      Gives .maxDepth "max_refinement_depth" ms s.maxDepth ({} : Settings).maxDepth ∧
      Gives .logLevel "log_level" ms s.logLevel ({} : Settings).logLevel ∧
      ∀ (ms' : List Member) (text' : String), IsObject ms' text'.toList →
        (ms'.filter Member.isKnown).Perm (ms.filter Member.isKnown) → read text' = .ok s := by
  refine ⟨_, read_of_isObject h honce, keeps_collectReport.gives honce _, keeps_maxDepth.gives honce _,
    keeps_logLevel.gives honce _, fun ms' text' h' hperm => ?_⟩
  have honce' : Once ms' := (hperm.map Member.key).nodup_iff.mpr honce
  rw [read_of_isObject h' honce', foldl_take_perm honce hperm]

/-- An object with blanks, a member that is no setting, whose value is nested, and a level that is spelled
by the number of its character. -/
def spaced : List Char :=
  [' ', '{', '"', 'x', '"', ':', '[', '-', '1', '.', '5', 'e', '+', '3', ',', '[', ']', ']', ' ', ',',
    '"', 'l', 'o', 'g', '_', 'l', 'e', 'v', 'e', 'l', '"', ':', ' ', '"', '\\', 'u', '0', '0', '6', '1',
    '"', '}']

/-- An object with the same level and nothing else. -/
def compact : List Char :=
  ['{', '"', 'l', 'o', 'g', '_', 'l', 'e', 'v', 'e', 'l', '"', ':', '"', 'a', '"', '}']

theorem isDigits_singleton {c : Char} (h : c.isDigit = true) : IsDigits [c] :=
  ⟨List.cons_ne_nil c [], List.forall_mem_singleton.mpr h⟩

theorem isObject_spaced :
    IsObject [.other "x", .logLevel (some "a")] (String.ofList spaced).toList := by
  have hnil : IsBlanks [] := by decide
  have hblank : IsBlanks [' '] := by decide
  have hnumber : IsUnsigned ['1', '.', '5', 'e', '+', '3'] :=
    ⟨['1'], ['.', '5'], ['e', '+', '3'], .inr ⟨isDigits_singleton rfl, by decide⟩,
      .inr ⟨['5'], isDigits_singleton rfl, rfl⟩,
      .inr ⟨'e', ['+'], ['3'], .inl rfl, .inr (.inl rfl), isDigits_singleton rfl, rfl⟩, rfl⟩
  have hvalue := Derives.array (.element hnil (.negative hnumber) hnil
    (.lastElement hnil (.emptyArray hnil) hnil))
  have hunit : IsCodeUnit 97 ['0', '0', '6', '1'] :=
    @IsCodeUnit.mk '0' '0' '6' '1' 0 0 6 1 rfl rfl rfl rfl
  have hpoint : IsCodePoint ['0', '0', '6', '1'] ['a'] := .basic hunit (.inl (by decide))
  have hlevel : (Member.logLevel (some "a")).IsWritten _ := ⟨_, .number hpoint .nil, rfl⟩
  have hother : (Member.other "x").IsWritten _ := ⟨by decide, hvalue⟩
  have h := IsObject.members hblank
    (.cons (.mk hnil (spells_escape _) hnil hnil hother hblank)
      (.last (.mk hnil (spells_escape _) hnil hblank hlevel hnil))) hnil
  refine cast (congrArg (IsObject _) ?_) h
  decide +kernel

theorem isObject_compact : IsObject [.logLevel (some "a")] (String.ofList compact).toList := by
  have hnil : IsBlanks [] := by decide
  have hlevel : (Member.logLevel (some "a")).IsWritten _ := ⟨_, spells_escape _, rfl⟩
  have h := IsObject.members hnil (.last (.mk hnil (spells_escape _) hnil hnil hlevel hnil)) hnil
  refine cast (congrArg (IsObject _) ?_) h
  decide +kernel

theorem read_by_name_spaced :
    Once [.other "x", .logLevel (some "a")] ∧
    ∃ s : Settings, read (.ofList spaced) = .ok s ∧ read (.ofList compact) = .ok s ∧
      s.logLevel = some "a" ∧ s.maxDepth = ({} : Settings).maxDepth := by
  have honce : Once [.other "x", .logLevel (some "a")] := (by decide : ["log_level"].Nodup)
  obtain ⟨s, hs, -, hdepth, hlevel, hsame⟩ := read_by_name isObject_spaced honce
  exact ⟨honce, s, hs, hsame _ _ isObject_compact (.refl _), hlevel.1 _ (by simp), hdepth.2 (by decide)⟩

end Unbox.Settings
