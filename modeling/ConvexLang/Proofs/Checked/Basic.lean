import ConvexLang.Proofs.Placement

/-!
# Checked computations

A reader that goes by positions may ask for a token that is not there, or cut a text where
no character begins. Here such a reader is written out with every access checked: where a
check fails there is no result at all (`Checked`), neither an answer nor a failure. So that
there is a result says that nothing was asked for in vain.

* `Checked.loop`: a loop, in which each round must leave less to do.
* `behind?`, `slice?`: the parts of a text by the offsets of their bytes. They are there
  just for the offsets at which a character begins, and the end (`isSome_behind?_iff`,
  `isSome_slice?_iff`).
-/

namespace ConvexLang

/-- A computation on a state of `σ` that answers with a value of `α` or fails with one of
    `ε`, and leaves a state either way. -/
structure Checked (σ ε α : Type) where
  /-- The result in a state. There is none if a check fails. -/
  run : σ → Option (Except ε α × σ)

namespace Checked

variable {σ ε α β : Type}

instance : Monad (Checked σ ε) where
  pure a := ⟨fun s => some (.ok a, s)⟩
  bind x f := ⟨fun s =>
    match x.run s with
    | none => none
    | some (.error e, s') => some (.error e, s')
    | some (.ok a, s') => (f a).run s'⟩

/-- The state. -/
def state : Checked σ ε σ where
  run s := some (.ok s, s)

/-- Goes on in another state. -/
def goTo (s : σ) : Checked σ ε Unit where
  run _ := some (.ok (), s)

/-- Fails. -/
def fail (e : ε) : Checked σ ε α where
  run s := some (.error e, s)

/-- A check: what is asked for must be there. -/
def check (a? : Option α) : Checked σ ε α where
  run s := a?.map fun a => (.ok a, s)

/-- Goes through rounds from a state on. -/
def loopFrom (remaining : σ → Nat) (round : β → Checked σ ε (ForInStep β)) (b : β) (s : σ) :
    Option (Except ε β × σ) :=
  match (round b).run s with
  | none => none
  | some (.error e, s') => some (.error e, s')
  | some (.ok (.done b'), s') => some (.ok b', s')
  | some (.ok (.yield b'), s') =>
    if remaining s' < remaining s then loopFrom remaining round b' s' else none
termination_by remaining s

/-- Goes through rounds until one is the last. What `remaining` counts must become less with
    each round that is not; this is checked as well. -/
def loop (remaining : σ → Nat) (round : β → Checked σ ε (ForInStep β)) (b : β) :
    Checked σ ε β where
  run := loopFrom remaining round b

section Laws

variable {s s' : σ} {a : α} {e : ε}

@[simp] theorem run_pure : (pure a : Checked σ ε α).run s = some (.ok a, s) :=
  rfl

@[simp] theorem run_state : (state : Checked σ ε σ).run s = some (.ok s, s) :=
  rfl

@[simp] theorem run_goTo : (goTo s' : Checked σ ε Unit).run s = some (.ok (), s') :=
  rfl

@[simp] theorem run_fail : (fail e : Checked σ ε α).run s = some (.error e, s) :=
  rfl

@[simp] theorem run_check : (check (some a) : Checked σ ε α).run s = some (.ok a, s) :=
  rfl

theorem run_bind_ok {x : Checked σ ε α} {f : α → Checked σ ε β}
    (h : x.run s = some (.ok a, s')) : (x >>= f).run s = (f a).run s' := by
  simp only [bind, h]

theorem run_bind_error {x : Checked σ ε α} {f : α → Checked σ ε β}
    (h : x.run s = some (.error e, s')) : (x >>= f).run s = some (.error e, s') := by
  simp only [bind, h]

variable {remaining : σ → Nat} {round : β → Checked σ ε (ForInStep β)} {b b' : β}

theorem run_loop_done (h : (round b).run s = some (.ok (.done b'), s')) :
    (loop remaining round b).run s = some (.ok b', s') := by
  change loopFrom remaining round b s = _
  rw [loopFrom, h]

theorem run_loop_yield (h : (round b).run s = some (.ok (.yield b'), s'))
    (hless : remaining s' < remaining s) :
    (loop remaining round b).run s = (loop remaining round b').run s' := by
  change loopFrom remaining round b s = _
  rw [loopFrom, h]
  exact if_pos hless

theorem run_loop_error (h : (round b).run s = some (.error e, s')) :
    (loop remaining round b).run s = some (.error e, s') := by
  change loopFrom remaining round b s = _
  rw [loopFrom, h]

end Laws

end Checked

/-! ## Parts of a text -/

/-- The characters behind the first `n` bytes, if these are whole characters. -/
def behind? : Nat → List Char → Option (List Char)
  | 0, cs => some cs
  | _ + 1, [] => none
  | n + 1, c :: cs =>
    if c.utf8Size ≤ n + 1 then behind? (n + 1 - c.utf8Size) cs else none

/-- The characters in the first `n` bytes, if these are whole characters. -/
def front? : Nat → List Char → Option (List Char)
  | 0, _ => some []
  | _ + 1, [] => none
  | n + 1, c :: cs =>
    if c.utf8Size ≤ n + 1 then (front? (n + 1 - c.utf8Size) cs).map (c :: ·) else none

/-- The characters from the byte `first` up to but excluding the byte `past`. -/
def slice? (first past : Nat) (cs : List Char) : Option (List Char) :=
  if first ≤ past then (behind? first cs).bind (front? (past - first)) else none

theorem behind?_cons {n : Nat} {c : Char} {cs : List Char} :
    behind? (c.utf8Size + n) (c :: cs) = behind? n cs := by
  obtain ⟨m, hm⟩ := Nat.exists_eq_succ_of_ne_zero (Nat.add_pos_left c.utf8Size_pos n).ne'
  rw [hm, Nat.succ_eq_add_one, behind?, ← Nat.succ_eq_add_one, ← hm, if_pos (Nat.le_add_right _ _),
    Nat.add_sub_cancel_left]

theorem front?_cons {n : Nat} {c : Char} {cs : List Char} :
    front? (c.utf8Size + n) (c :: cs) = (front? n cs).map (c :: ·) := by
  obtain ⟨m, hm⟩ := Nat.exists_eq_succ_of_ne_zero (Nat.add_pos_left c.utf8Size_pos n).ne'
  rw [hm, Nat.succ_eq_add_one, front?, ← Nat.succ_eq_add_one, ← hm, if_pos (Nat.le_add_right _ _),
    Nat.add_sub_cancel_left]

theorem behind?_append (front cs : List Char) :
    behind? (Text.byteSize front) (front ++ cs) = some cs := by
  induction front with
  | nil => rw [Text.byteSize, List.nil_append, behind?]
  | cons c front ih => rw [Text.byteSize, List.cons_append, behind?_cons, ih]

theorem front?_append (text cs : List Char) :
    front? (Text.byteSize text) (text ++ cs) = some text := by
  induction text with
  | nil => rw [Text.byteSize, front?]
  | cons c text ih =>
    rw [Text.byteSize, List.cons_append, front?_cons, ih, Option.map_some]

theorem slice?_append (front text cs : List Char) :
    slice? (Text.byteSize front) (Text.byteSize (front ++ text)) (front ++ (text ++ cs)) =
      some text := by
  rw [slice?, Text.byteSize_append, if_pos (Nat.le_add_right _ _), behind?_append,
    Option.bind_some, Nat.add_sub_cancel_left, front?_append]

theorem exists_of_behind? {n : Nat} {cs rest : List Char} (h : behind? n cs = some rest) :
    ∃ front, cs = front ++ rest ∧ n = Text.byteSize front := by
  induction n, cs using behind?.induct with
  | case1 cs =>
    rw [behind?, Option.some.injEq] at h
    exact ⟨[], h, rfl⟩
  | case2 n => cases h
  | case3 n c cs hle ih =>
    rw [behind?, if_pos hle] at h
    obtain ⟨front, rfl, hsize⟩ := ih h
    exact ⟨c :: front, rfl, by rw [Text.byteSize]; omega⟩
  | case4 n c cs hlt =>
    rw [behind?, if_neg hlt] at h
    cases h

theorem behind?_add {m n : Nat} {cs rest : List Char} (h : behind? m cs = some rest) :
    behind? (m + n) cs = behind? n rest := by
  obtain ⟨front, rfl, rfl⟩ := exists_of_behind? h
  induction front with
  | nil => rw [Text.byteSize, Nat.zero_add, List.nil_append]
  | cons c front ih =>
    rw [Text.byteSize, List.cons_append, Nat.add_assoc, behind?_cons]
    exact ih (behind?_append front rest)

/-- Both parts are there for the same offsets. -/
theorem isSome_front? (n : Nat) (cs : List Char) :
    (front? n cs).isSome = (behind? n cs).isSome := by
  induction n, cs using behind?.induct with
  | case1 cs => rw [front?, behind?, Option.isSome_some, Option.isSome_some]
  | case2 n => rw [front?, behind?]
  | case3 n c cs hle ih => rw [front?, behind?, if_pos hle, if_pos hle, Option.isSome_map, ih]
  | case4 n c cs hlt => rw [front?, behind?, if_neg hlt, if_neg hlt]

/-- The offsets in a text at which one of its characters begins, and that of its end. -/
theorem isValid_iff {n : Nat} {text : String} :
    String.Pos.Raw.IsValid text ⟨n⟩ ↔
      ∃ front rest, text.toList = front ++ rest ∧ n = Text.byteSize front := by
  rw [String.Pos.Raw.isValid_iff_exists_append]
  constructor
  · rintro ⟨front, rest, rfl, h⟩
    rw [String.Pos.Raw.ext_iff, String.byteIdx_rawEndPos, ← byteSize_toList] at h
    exact ⟨front.toList, rest.toList, String.toList_append, h⟩
  · rintro ⟨front, rest, htext, rfl⟩
    refine ⟨String.ofList front, String.ofList rest, ?_, ?_⟩
    · rw [← String.ofList_append, ← htext, String.ofList_toList]
    · rw [String.Pos.Raw.ext_iff, String.byteIdx_rawEndPos, ← byteSize_toList,
        String.toList_ofList]

/-- A text can be cut at these offsets and nowhere else. -/
theorem isSome_behind?_iff {n : Nat} {text : String} :
    (behind? n text.toList).isSome ↔ String.Pos.Raw.IsValid text ⟨n⟩ := by
  rw [isValid_iff, Option.isSome_iff_exists]
  constructor
  · rintro ⟨rest, h⟩
    obtain ⟨front, htext, hn⟩ := exists_of_behind? h
    exact ⟨front, rest, htext, hn⟩
  · rintro ⟨front, rest, htext, rfl⟩
    rw [htext]
    exact ⟨rest, behind?_append front rest⟩

/-- A text can be sliced between two of them that are in order, and nowhere else. -/
theorem isSome_slice?_iff {first past : Nat} {text : String} :
    (slice? first past text.toList).isSome ↔
      first ≤ past ∧ String.Pos.Raw.IsValid text ⟨first⟩ ∧
        String.Pos.Raw.IsValid text ⟨past⟩ := by
  rw [← isSome_behind?_iff, ← isSome_behind?_iff, slice?]
  split_ifs with hle
  · cases hfirst : behind? first text.toList with
    | none => simp
    | some rest =>
      have hpast : behind? past text.toList = behind? (past - first) rest := by
        rw [← behind?_add hfirst, Nat.add_sub_cancel' hle]
      rw [Option.bind_some, isSome_front?, hpast]
      simp [hle]
  · simp [hle]

end ConvexLang
