/-!
# Tables by name

A finite map from names to values, listed in the order of the names: bytes of
UTF-8 and characters order texts alike, so this is also the byte order. The
names strictly increase, hence two tables with the same look-ups are the same
table (`Table.ext_get?`) and the order of insertions leaves no trace.
-/

namespace ConvexLang

/-- A table from names to values of `α`. -/
structure Table (α : Type) where
  /-- The entries, in the order of their names. -/
  entries : List (String × α)
  /-- The names strictly increase. -/
  sorted : entries.Pairwise fun a b => a.1 < b.1

namespace Table

variable {α : Type}

@[ext] theorem ext {t u : Table α} (h : t.entries = u.entries) : t = u := by
  cases t; cases u; cases h; rfl

instance [DecidableEq α] : DecidableEq (Table α) := fun t u =>
  decidable_of_iff (t.entries = u.entries) ⟨ext, congrArg entries⟩

/-- The table without entries. -/
def empty : Table α :=
  ⟨[], .nil⟩

/-! ## Look-up -/

/-- The value of the entry with this name. -/
def lookup (name : String) : List (String × α) → Option α
  | [] => none
  | (n, a) :: es => if n = name then some a else lookup name es

/-- The value a table holds for a name. -/
def get? (t : Table α) (name : String) : Option α :=
  lookup name t.entries

/-- Whether a table holds a value for a name. -/
def contains (t : Table α) (name : String) : Bool :=
  (t.get? name).isSome

/-- The number of entries. -/
def size (t : Table α) : Nat :=
  t.entries.length

/-- The names, in order. -/
def names (t : Table α) : List String :=
  t.entries.map Prod.fst

theorem mem_of_lookup {name : String} {a : α} {es : List (String × α)}
    (h : lookup name es = some a) : (name, a) ∈ es := by
  induction es with
  | nil => cases h
  | cons e es ih =>
    rw [lookup] at h
    split at h
    · rename_i hname
      cases h
      exact hname ▸ List.mem_cons_self
    · exact List.mem_cons_of_mem e (ih h)

theorem lookup_of_mem {e : String × α} {es : List (String × α)}
    (hes : es.Pairwise fun a b => a.1 < b.1) (he : e ∈ es) : lookup e.1 es = some e.2 := by
  induction es with
  | nil => cases he
  | cons d es ih =>
    obtain ⟨hd, hes⟩ := List.pairwise_cons.1 hes
    rw [lookup]
    rcases List.mem_cons.1 he with rfl | he
    · rw [if_pos rfl]
    · rw [if_neg fun hname => String.lt_irrefl _ (hname ▸ hd e he), ih hes he]

/-- The entries of a table are the values that are found. -/
theorem mem_entries_iff {t : Table α} {name : String} {a : α} :
    (name, a) ∈ t.entries ↔ t.get? name = some a :=
  ⟨lookup_of_mem t.sorted, mem_of_lookup⟩

/-! ## Insertion -/

/-- Puts an entry in its place; one of the same name gives way. -/
def insertEntry (name : String) (a : α) : List (String × α) → List (String × α)
  | [] => [(name, a)]
  | e :: es =>
    if name < e.1 then (name, a) :: e :: es
    else if e.1 < name then e :: insertEntry name a es
    else (name, a) :: es

theorem name_of_mem_insertEntry {name : String} {a : α} {e : String × α} :
    ∀ {es : List (String × α)}, e ∈ insertEntry name a es → e.1 = name ∨ e ∈ es
  | [], h => by simp_all [insertEntry]
  | d :: es, h => by
    unfold insertEntry at h
    split at h
    · simp at h ⊢
      rcases h with rfl | rfl | h <;> simp_all
    · split at h
      · rcases List.mem_cons.1 h with rfl | h
        · simp
        · rcases name_of_mem_insertEntry h with h | h <;> simp [h]
      · rcases List.mem_cons.1 h with rfl | h <;> simp_all

theorem sorted_insertEntry {name : String} {a : α} :
    ∀ {es : List (String × α)}, es.Pairwise (fun a b => a.1 < b.1) →
      (insertEntry name a es).Pairwise fun a b => a.1 < b.1
  | [], _ => by simp [insertEntry]
  | d :: es, h => by
    obtain ⟨hd, hes⟩ := List.pairwise_cons.1 h
    unfold insertEntry
    split
    · rename_i hlt
      refine List.pairwise_cons.2 ⟨fun e he => ?_, h⟩
      rcases List.mem_cons.1 he with rfl | he
      · exact hlt
      · exact String.lt_trans hlt (hd e he)
    · split
      · rename_i hlt
        refine List.pairwise_cons.2 ⟨fun e he => ?_, sorted_insertEntry hes⟩
        rcases name_of_mem_insertEntry he with he | he
        · exact he ▸ hlt
        · exact hd e he
      · rename_i hge hle
        have hname : d.1 = name := String.le_antisymm (String.not_lt.1 hge) (String.not_lt.1 hle)
        exact List.pairwise_cons.2 ⟨fun e he => hname ▸ hd e he, hes⟩

/-- The table with the value for one name set. -/
def insert (t : Table α) (name : String) (a : α) : Table α :=
  ⟨insertEntry name a t.entries, sorted_insertEntry t.sorted⟩

/-- The table with the value for each of several names set, in order. -/
def insertAll (t : Table α) (entries : List (String × α)) : Table α :=
  entries.foldl (fun u e => u.insert e.1 e.2) t

/-- The table of the given entries; the last of one name counts. -/
def ofList (entries : List (String × α)) : Table α :=
  empty.insertAll entries

@[simp] theorem get?_empty (name : String) : (empty : Table α).get? name = none := rfl

theorem lookup_insertEntry (name other : String) (a : α) : ∀ es : List (String × α),
    lookup other (insertEntry name a es) = if name = other then some a else lookup other es
  | [] => by simp [insertEntry, lookup]
  | d :: es => by
    unfold insertEntry
    split
    · simp [lookup]
    · split
      · rename_i hlt
        have hne : d.1 ≠ name := fun h => String.lt_irrefl _ (h ▸ hlt)
        simp only [lookup, lookup_insertEntry name other a es]
        by_cases hd : d.1 = other
        · have : name ≠ other := fun h => hne (hd.trans h.symm)
          simp [hd, this]
        · simp [hd]
      · rename_i hge hle
        have hname : d.1 = name := String.le_antisymm (String.not_lt.1 hge) (String.not_lt.1 hle)
        simp only [lookup, hname]
        split <;> simp_all

/-- The value set is found, and all others stay. -/
@[simp] theorem get?_insert (t : Table α) (name other : String) (a : α) :
    (t.insert name a).get? other = if name = other then some a else t.get? other :=
  lookup_insertEntry name other a t.entries

/-! ## Extensionality -/

theorem lookup_eq_none_of_lt {name : String} :
    ∀ {es : List (String × α)}, (∀ e ∈ es, name < e.1) → lookup name es = none
  | [], _ => rfl
  | d :: es, h => by
    have hne : d.1 ≠ name := fun hd => String.lt_irrefl _ (hd ▸ h d (by simp))
    simp [lookup, hne, lookup_eq_none_of_lt fun e he => h e (List.mem_cons_of_mem d he)]

theorem eq_of_lookup_eq : ∀ {es fs : List (String × α)},
    es.Pairwise (fun a b => a.1 < b.1) → fs.Pairwise (fun a b => a.1 < b.1) →
      (∀ name, lookup name es = lookup name fs) → es = fs
  | [], [], _, _, _ => rfl
  | [], e :: _, _, _, h => by simpa [lookup] using h e.1
  | d :: _, [], _, _, h => by simpa [lookup] using h d.1
  | d :: es, e :: fs, hes, hfs, h => by
    obtain ⟨hd, hes⟩ := List.pairwise_cons.1 hes
    obtain ⟨he, hfs⟩ := List.pairwise_cons.1 hfs
    -- the least names agree, since each table misses all names below its least one
    have hname : d.1 = e.1 := by
      refine String.le_antisymm (String.not_lt.1 fun hlt => ?_) (String.not_lt.1 fun hlt => ?_)
      · have hnone : lookup e.1 (d :: es) = none := lookup_eq_none_of_lt fun a ha =>
          (List.mem_cons.1 ha).elim (· ▸ hlt) fun ha => String.lt_trans hlt (hd a ha)
        have := h e.1
        rw [hnone] at this
        simp [lookup] at this
      · have hnone : lookup d.1 (e :: fs) = none := lookup_eq_none_of_lt fun a ha =>
          (List.mem_cons.1 ha).elim (· ▸ hlt) fun ha => String.lt_trans hlt (he a ha)
        have := h d.1
        rw [hnone] at this
        simp [lookup] at this
    have hvalue : d.2 = e.2 := by simpa [lookup, hname] using h e.1
    have htail : es = fs := eq_of_lookup_eq hes hfs fun name => by
      by_cases hn : d.1 = name
      · rw [lookup_eq_none_of_lt fun a ha => hn ▸ hd a ha,
          lookup_eq_none_of_lt fun a ha => hn ▸ hname ▸ he a ha]
      · simpa [lookup, hn, hname ▸ hn] using h name
    rw [htail, Prod.ext hname hvalue]

/-- Tables with the same look-ups are equal. -/
theorem ext_get? {t u : Table α} (h : ∀ name, t.get? name = u.get? name) : t = u :=
  ext (eq_of_lookup_eq t.sorted u.sorted h)

end Table

end ConvexLang
