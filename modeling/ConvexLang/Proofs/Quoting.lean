import ConvexLang.Json
import Mathlib.Tactic.SplitIfs

/-!
# Quoted texts

A quoted text can be read back: each of its characters is one escape, from which the
character is known (`unescape_escape`), and no escape begins with a quote. So a quoted
text ends where it ends, whatever stands behind it (`quote_append_inj`).
-/

namespace ConvexLang.Json

/-! ## Characters -/

/-- The value of a hexadecimal digit. -/
def hexValue (c : Char) : Nat :=
  ((List.range 16).map hexDigit).idxOf c

theorem hexValue_hexDigit : ∀ n < 16, hexValue (hexDigit n) = n := by
  decide

/-- The character that an escape stands for, by what stands behind the backslash, and what
    remains behind the escape. -/
def unescapeBehind : List Char → Option (Char × List Char)
  | 'b' :: rest => some ('\x08', rest)
  | 'f' :: rest => some ('\x0c', rest)
  | 'n' :: rest => some ('\n', rest)
  | 'r' :: rest => some ('\r', rest)
  | 't' :: rest => some ('\t', rest)
  | 'u' :: _ :: _ :: c :: d :: rest => some (.ofNat (hexValue c * 16 + hexValue d), rest)
  | c :: rest => some (c, rest)
  | [] => none

/-- The first character of a quoted text, and what remains behind it. -/
def unescape : List Char → Option (Char × List Char)
  | '\\' :: cs => unescapeBehind cs
  | c :: cs => some (c, cs)
  | [] => none

/-- A character is read back from its escape. -/
theorem unescape_escape (c : Char) (rest : List Char) :
    unescape (escape c ++ rest) = some (c, rest) := by
  rw [escape]
  split_ifs with hquote hbackslash hb hf hn hr ht hcontrol
  · rw [hquote]
    rfl
  · rw [hbackslash]
    rfl
  · rw [hb]
    rfl
  · rw [hf]
    rfl
  · rw [hn]
    rfl
  · rw [hr]
    rfl
  · rw [ht]
    rfl
  · have hvalue : hexValue (hexDigit (c.toNat / 16)) * 16 + hexValue (hexDigit (c.toNat % 16)) =
        c.toNat := by
      rw [hexValue_hexDigit _ (by omega), hexValue_hexDigit _ (by omega)]
      omega
    change some (Char.ofNat _, rest) = _
    rw [hvalue, Char.ofNat_toNat]
  · rw [List.singleton_append, unescape]
    exact hbackslash

theorem escape_append_inj {c d : Char} {r s : List Char} (h : escape c ++ r = escape d ++ s) :
    c = d ∧ r = s := by
  have hread := unescape_escape c r
  rw [h, unescape_escape] at hread
  cases hread
  exact ⟨rfl, rfl⟩

/-- No escape begins with a quote. -/
theorem escape_append_ne_quote (c : Char) (r s : List Char) : escape c ++ r ≠ '"' :: s := by
  intro h
  have hread := unescape_escape c r
  rw [h] at hread
  obtain rfl : '"' = c := by
    cases hread
    rfl
  cases h

/-! ## Texts -/

theorem flatMap_escape_append_inj {cs ds r s : List Char}
    (h : cs.flatMap escape ++ '"' :: r = ds.flatMap escape ++ '"' :: s) : cs = ds ∧ r = s := by
  induction cs generalizing ds with
  | nil =>
    cases ds with
    | nil =>
      cases h
      exact ⟨rfl, rfl⟩
    | cons d ds =>
      rw [List.flatMap_cons, List.append_assoc] at h
      exact absurd h.symm (escape_append_ne_quote d _ _)
  | cons c cs ih =>
    rw [List.flatMap_cons, List.append_assoc] at h
    cases ds with
    | nil => exact absurd h (escape_append_ne_quote c _ _)
    | cons d ds =>
      rw [List.flatMap_cons, List.append_assoc] at h
      obtain ⟨rfl, hrest⟩ := escape_append_inj h
      obtain ⟨rfl, rfl⟩ := ih hrest
      exact ⟨rfl, rfl⟩

/-- A quoted text is known from what it begins, and ends where it ends. -/
theorem quote_append_inj {s t : String} {r r' : List Char} (h : quote s ++ r = quote t ++ r') :
    s = t ∧ r = r' := by
  rw [quote, quote, List.cons_append, List.cons_append, List.append_assoc, List.append_assoc,
    List.cons.injEq] at h
  obtain ⟨hs, hr⟩ := flatMap_escape_append_inj h.2
  exact ⟨String.toList_inj.1 hs, hr⟩

end ConvexLang.Json
