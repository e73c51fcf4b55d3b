/-
JSON texts as they are written, read token by token. A string is written so that each of its characters is read back
from a piece of its own (`Writes`), and where the string ends does not depend on what follows it. So the tokens of a
text that is put together from strings, brackets, colons and commas are those of its parts, in order (`HasTokens`).
-/
import CompactSearch.Json.Basic
import CompactSearch.Json.Token
import Mathlib.Data.List.Basic

namespace CompactSearch.Json

/-! ## Characters of a string -/

/-- How a character stands in a string: as a short escape, as a code, or as itself. -/
inductive Writes (c : Char) : List Char → Prop
  | short {d : Char} (h : shortEscape? d = some c) (hu : d ≠ 'u') : Writes c ['\\', d]
  | code (h : c.toNat < 0x20) : Writes c ('\\' :: 'u' :: (hex4 c.toNat).toList)
  | bare (hq : c ≠ '"') (hb : c ≠ '\\') (h : 0x20 ≤ c.toNat) : Writes c [c]

theorem writes_escapedForm (c : Char) : Writes c (escapedForm c).toList := by
  unfold escapedForm
  split_ifs with h₁ h₂ h₃ h₄ h₅ h₆ h₇ h₈
  · subst h₁; exact .short (by decide) (by decide)
  · subst h₂; exact .short (by decide) (by decide)
  · subst h₃; exact .short (by decide) (by decide)
  · subst h₄; exact .short (by decide) (by decide)
  · subst h₅; exact .short (by decide) (by decide)
  · subst h₆; exact .short (by decide) (by decide)
  · subst h₇; exact .short (by decide) (by decide)
  · rw [String.toList_append]
    exact .code h₈
  · rw [Char.toString_eq_singleton, String.toList_singleton]
    exact .bare h₁ h₂ (by omega)

theorem length_hex4 {n : Nat} (h : n < 0x20) : (hex4 n).toList.length = 4 := by
  have hall : ∀ n < 0x20, (hex4 n).toList.length = 4 := by decide +kernel
  exact hall n h

theorem hexCode_hex4 {n : Nat} (h : n < 0x20) (rest : List Char) : hexCode ((hex4 n).toList ++ rest) = .ok n := by
  have hall : ∀ n < 0x20, hexCode (hex4 n).toList = .ok n := by decide +kernel
  rw [← hall n h, hexCode, hexCode, List.take_left' (length_hex4 h), ← length_hex4 h, List.take_length]

/-- The code of a control is no half of a pair. -/
theorem escape_code {n : Nat} (h : n < 0x20) (rest : List Char) :
    escape ('u' :: ((hex4 n).toList ++ rest)) = .ok (Char.ofNat n, 5) := by
  have hlow : ¬ (0xdc00 ≤ n ∧ n ≤ 0xdfff) := by omega
  have hhigh : ¬ (0xd800 ≤ n ∧ n ≤ 0xdbff) := by omega
  rw [escape, if_pos rfl, hexCode_hex4 h]
  simp only [if_neg hlow, if_neg hhigh]

variable {c : Char} {cs rest : List Char}

theorem Writes.readString (h : Writes c cs) :
    readString (cs ++ rest) = (readString rest).map fun (s, r) => (c :: s, r) := by
  cases h with
  | @short d h hu =>
    rw [List.cons_append, List.cons_append, List.nil_append, Json.readString.eq_def]
    simp [escape, h, hu]
  | code h =>
    rw [List.cons_append, List.cons_append, Json.readString.eq_def]
    simp only [escape_code h, Char.ofNat_toNat, List.drop_succ_cons, List.drop_left' (length_hex4 h)]
    rfl
  | bare hq hb h =>
    rw [List.cons_append, List.nil_append, Json.readString.eq_def]
    simp only [if_neg hq, if_neg hb, if_neg (Nat.not_lt.2 h)]

theorem Writes.skipString (h : Writes c cs) : skipString (cs ++ rest) = skipString rest := by
  cases h with
  | @short d h hu =>
    rw [List.cons_append, List.cons_append, List.nil_append, Json.skipString.eq_def]
    simp [h, hu]
  | code h =>
    rw [List.cons_append, List.cons_append, Json.skipString.eq_def]
    simp only [hexCode_hex4 h, List.drop_left' (length_hex4 h)]
    rfl
  | bare hq hb h =>
    rw [List.cons_append, List.nil_append, Json.skipString.eq_def]
    simp only [if_neg hq, if_neg hb, if_neg (Nat.not_lt.2 h)]

/-! ## Strings -/

/-- The characters of a string between its quotes. -/
def written (cs : List Char) : List Char := cs.flatMap fun c => (escapedForm c).toList

theorem toList_quote (s : String) : (quote s).toList = '"' :: (written s.toList ++ ['"']) := by
  rw [quote, String.toList_append, String.toList_append, String.toList_join, List.flatMap_map]
  rfl

theorem readString_written : ∀ cs : List Char, readString (written cs ++ '"' :: rest) = .ok (cs, rest)
  | [] => by rw [written, List.flatMap_nil, List.nil_append, readString.eq_def]; rfl
  | c :: cs => by
    rw [written, List.flatMap_cons, List.append_assoc, (writes_escapedForm c).readString]
    have ih : readString (written cs ++ '"' :: rest) = .ok (cs, rest) := readString_written cs
    rw [← written, ih]
    rfl

theorem skipString_written : ∀ cs : List Char, skipString (written cs ++ '"' :: rest) = .ok rest
  | [] => by rw [written, List.flatMap_nil, List.nil_append, skipString.eq_def]; rfl
  | c :: cs => by
    rw [written, List.flatMap_cons, List.append_assoc, (writes_escapedForm c).skipString]
    exact skipString_written cs

/-! ## Tokens -/

/-- The text has these tokens, whatever follows it. -/
def HasTokens (cs : List Char) (ts : List Token) : Prop := ∀ rest, tokens (cs ++ rest) = ts ++ tokens rest

theorem HasTokens.append {cs ds : List Char} {ts us : List Token} (h : HasTokens cs ts) (h' : HasTokens ds us) :
    HasTokens (cs ++ ds) (ts ++ us) := by
  intro rest
  rw [List.append_assoc, List.append_assoc, h, h']

theorem HasTokens.eq {ts : List Token} (h : HasTokens cs ts) : tokens cs = ts := by
  have heq := h []
  rwa [List.append_nil, show tokens [] = [] by rw [tokens.eq_def], List.append_nil] at heq

/-- The signs that are tokens of one character. -/
def signs : List (Char × Token) :=
  [('[', .openArray), (']', .closeArray), ('\x7b', .openObject), ('\x7d', .closeObject), (',', .comma), (':', .colon)]

theorem hasTokens_sign {t : Token} (h : (c, t) ∈ signs) : HasTokens [c] [t] := by
  intro rest
  have hfirst : isSpace c = false ∧ t.isPassable = true ∧ firstToken c rest = (t, 0) := by
    simp only [signs, List.mem_cons, Prod.mk.injEq, List.not_mem_nil, or_false] at h
    rcases h with ⟨rfl, rfl⟩ | ⟨rfl, rfl⟩ | ⟨rfl, rfl⟩ | ⟨rfl, rfl⟩ | ⟨rfl, rfl⟩ | ⟨rfl, rfl⟩ <;>
      exact ⟨rfl, rfl, rfl⟩
  obtain ⟨hspace, hpass, hfirst⟩ := hfirst
  rw [List.cons_append, List.nil_append, tokens.eq_def]
  simp [hspace, hpass, hfirst]

theorem stringToken_written (s : String) : stringToken (written s.toList ++ ['"'] ++ rest) =
    (.string (.ok s) none, (written s.toList ++ ['"']).length) := by
  have hlen : (written s.toList ++ '"' :: rest).length - rest.length = (written s.toList ++ ['"']).length := by
    simp only [List.length_append, List.length_cons, List.length_nil]
    omega
  rw [List.append_assoc, List.singleton_append, stringToken, readString_written, skipString_written]
  simp only [Except.map, String.ofList_toList, hlen]

/-- A string is read back as one token, which holds the string. -/
theorem hasTokens_quote (s : String) : HasTokens (quote s).toList [.string (.ok s) none] := by
  intro rest
  have hfirst : firstToken '"' (written s.toList ++ ['"'] ++ rest) =
      (.string (.ok s) none, (written s.toList ++ ['"']).length) := stringToken_written s
  rw [toList_quote, List.cons_append, tokens.eq_def]
  simp only [hfirst, List.drop_left]
  rfl

/-- The tokens of parts with commas between them are those of the parts with commas between them. -/
theorem hasTokens_parts {parts : List String} {tss : List (List Token)}
    (h : List.Forall₂ (fun s => HasTokens s.toList) parts tss) :
    HasTokens (",".intercalate parts).toList ([Token.comma].intercalate tss) := by
  rw [String.toList_intercalate]
  induction h with
  | nil => exact fun rest => rfl
  | cons hpart hrest ih =>
    cases hrest with
    | nil => rwa [List.map_singleton, List.intercalate_singleton, List.intercalate_singleton]
    | cons h' hrest' =>
      rw [List.map_cons, List.map_cons, List.intercalate_cons_cons, List.intercalate_cons_cons]
      exact (hpart.append (hasTokens_sign (c := ',') (by simp [signs]))).append ih

theorem hasTokens_brackets {s : String} {ts : List Token} (h : HasTokens s.toList ts) :
    HasTokens ("[" ++ s ++ "]").toList (.openArray :: (ts ++ [.closeArray])) := by
  rw [String.toList_append, String.toList_append, List.append_assoc]
  exact (hasTokens_sign (c := '[') (by simp [signs])).append (h.append (hasTokens_sign (c := ']') (by simp [signs])))

theorem hasTokens_braces {s : String} {ts : List Token} (h : HasTokens s.toList ts) :
    HasTokens ("\x7b" ++ s ++ "\x7d").toList (.openObject :: (ts ++ [.closeObject])) := by
  rw [String.toList_append, String.toList_append, List.append_assoc]
  exact (hasTokens_sign (c := '\x7b') (by simp [signs])).append
    (h.append (hasTokens_sign (c := '\x7d') (by simp [signs])))

theorem hasTokens_field (key : String) {s : String} {ts : List Token} (h : HasTokens s.toList ts) :
    HasTokens (quote key ++ ":" ++ s).toList (.string (.ok key) none :: .colon :: ts) := by
  rw [String.toList_append, String.toList_append, List.append_assoc]
  exact (hasTokens_quote key).append ((hasTokens_sign (c := ':') (by simp [signs])).append h)

end CompactSearch.Json
