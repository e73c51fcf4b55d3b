/-
Literal blocks read back. A text is a number of breaks followed by lines with breaks between them; what is written has
each line behind its indentation (`Block`), and the mark in the header says how many of the breaks at the end belong to
the text (`block_of_text`). Reading goes line by line, and keeps the last break and the ones behind it open until the
block ends in front of a line that is indented by less (`blockLines_of_block`).
-/
import CompactSearch.Proofs.Yaml.Line

namespace CompactSearch.Yaml

variable {n : Nat} {c : Char} {cs r t : List Char}

/-! ## In front of a line -/

section

variable {given : Option Nat} {reached l : Nat} {p : Position}

theorem lineStart_spaces : ∀ {m : Nat} {p : Position}, (∀ i ∈ given, p.column + m ≤ i) →
    lineStart given reached p (spaces m ++ r) = lineStart given reached (p.right m) r
  | 0, _, _ => rfl
  | m + 1, p, h => by
    have hindent : (given.map fun n => decide (p.column < n)).getD true = true := by
      cases given with
      | none => rfl
      | some i =>
        have hi := h i rfl
        simp only [Option.map_some, Option.getD_some, decide_eq_true_eq]
        omega
    have hafter : p.after ' ' = p.right 1 := rfl
    have h' : ∀ i ∈ given, (p.right 1).column + m ≤ i := by
      intro i hi
      have hle := h i hi
      rw [Position.column_right]
      omega
    rw [spaces_succ, List.cons_append, lineStart, if_pos ⟨rfl, hindent⟩, hafter, lineStart_spaces h',
      Position.right_right, Nat.add_comm]

/-- The indentation ends in front of anything but blanks and breaks, and where it is complete. -/
theorem lineStart_stop (hbreak : isBreak c = false) (h : isBlank c = false ∨ ∃ i, given = some i ∧ i ≤ p.column) :
    lineStart given reached p (c :: r) = some ⟨[], max reached p.column, p, c :: r⟩ := by
  have hblank : ∀ d, isBlank d = true → ¬(c = d ∧ (given.map fun n => decide (p.column < n)).getD true = true) := by
    rintro _ hd ⟨rfl, hindent⟩
    rcases h with h | ⟨i, rfl, hi⟩
    · rw [h] at hd
      cases hd
    · simp only [Option.map_some, Option.getD_some, decide_eq_true_eq] at hindent
      omega
  rw [lineStart, if_neg (hblank ' ' rfl), if_neg (hblank '\t' rfl), if_neg (by simp [hbreak])]

/-- Empty lines. -/
theorem lineStart_breaks : ∀ {bs : List Char} {l : Nat}, (∀ b ∈ bs, isBreak b = true) →
    lineStart given reached ⟨l, 0⟩ (bs ++ r) = (lineStart given reached ⟨l + bs.length, 0⟩ r).map fun s =>
      { s with breaks := bs ++ s.breaks }
  | [], l, _ => Option.map_id'.symm
  | b :: bs, l, h => by
    have hb := h b List.mem_cons_self
    have hspace : b ≠ ' ' := ne_of_class hb rfl
    have htab : b ≠ '\t' := ne_of_class hb rfl
    have hline : l + (b :: bs).length = l + 1 + bs.length := by rw [List.length_cons]; omega
    rw [List.cons_append, lineStart, if_neg (by simp [hspace]), if_neg (by simp [htab]), if_pos hb,
      Position.after_of_isBreak hb, Nat.max_zero, lineStart_breaks fun d hd => h d (List.mem_cons_of_mem b hd),
      Option.map_map, hline]
    rfl

/-- A line that is indented by no more than the block ends it. -/
theorem lineStart_entry (ht : StartsEntry t) (hgiven : ∀ i ∈ given, indentOf t ≤ i) :
    lineStart given reached ⟨l, 0⟩ t = some ⟨[], max reached (indentOf t), ⟨l, indentOf t⟩, wordOf t⟩ := by
  have hspaces : lineStart given reached ⟨l, 0⟩ (spaces (indentOf t) ++ wordOf t) =
      lineStart given reached (Position.right ⟨l, 0⟩ (indentOf t)) (wordOf t) :=
    lineStart_spaces (by simpa using hgiven)
  rw [spaces_append_wordOf, Position.right, Nat.zero_add] at hspaces
  rw [hspaces]
  cases hword : wordOf t with
  | nil => rfl
  | cons c r =>
    have htoken := ht.startsToken
    rw [hword] at htoken
    obtain ⟨hblank, hbreak, -⟩ := htoken c rfl
    exact lineStart_stop hbreak (.inl hblank)

/-- A line of the block. -/
theorem lineStart_content (hbreak : isBreak c = false)
    (h : given = none ∧ isBlank c = false ∨ given = some n) :
    lineStart given reached ⟨l, 0⟩ (spaces n ++ c :: r) = some ⟨[], max reached n, ⟨l, n⟩, c :: r⟩ := by
  have hgiven : ∀ i ∈ given, 0 + n ≤ i := by
    rcases h with ⟨rfl, -⟩ | rfl
    · rintro _ ⟨⟩
    · rintro _ ⟨⟩
      exact (Nat.zero_add n).le
  have hspaces : lineStart given reached ⟨l, 0⟩ (spaces n ++ c :: r) =
      lineStart given reached (Position.right ⟨l, 0⟩ n) (c :: r) := lineStart_spaces hgiven
  rw [Position.right, Nat.zero_add] at hspaces
  rw [hspaces]
  refine lineStart_stop hbreak ?_
  rcases h with ⟨-, hblank⟩ | rfl
  · exact .inl hblank
  · exact .inr ⟨n, rfl, le_rfl⟩

end

/-! ## Lines -/

/-- A line without its break; it is not empty. -/
def IsLine (line : List Char) : Prop := line ≠ [] ∧ ∀ c ∈ line, isBreak c = false

theorem IsLine.cons {line : List Char} (h : IsLine line) : ∃ c r, line = c :: r ∧ isBreak c = false := by
  obtain ⟨hne, hline⟩ := h
  cases line with
  | nil => exact absurd rfl hne
  | cons c r => exact ⟨c, r, rfl, hline c List.mem_cons_self⟩

/-- What a block keeps of the breaks behind its last line. -/
def Chomping.kept (ch : Chomping) (b : Char) (bs : List Char) : List Char :=
  (if ch = .strip then [] else [b]) ++ (if ch = .keep then bs else [])

/-- A text that starts with a line, with what is written for it behind the indentation of that line. -/
inductive Block (n : Nat) (ch : Chomping) : List Char → List Char → Prop
  | last {line : List Char} {b : Char} {bs : List Char} (hline : IsLine line) (hb : isBreak b = true)
    (hbs : ∀ b ∈ bs, isBreak b = true) : Block n ch (line ++ ch.kept b bs) (line ++ b :: bs)
  | more {line : List Char} {b : Char} {bs cs out : List Char} (hline : IsLine line) (hb : isBreak b = true)
    (hbs : ∀ b ∈ bs, isBreak b = true) (h : Block n ch cs out) :
    Block n ch (line ++ b :: (bs ++ cs)) (line ++ b :: (bs ++ (spaces n ++ out)))

theorem Block.cons {ch : Chomping} {out : List Char} (h : Block n ch cs out) :
    ∃ c r r', cs = c :: r ∧ out = c :: r' ∧ isBreak c = false := by
  cases h with
  | last hline _ _ =>
    obtain ⟨c, r, rfl, hc⟩ := hline.cons
    exact ⟨c, _, _, rfl, rfl, hc⟩
  | more hline _ _ _ =>
    obtain ⟨c, r, rfl, hc⟩ := hline.cons
    exact ⟨c, _, _, rfl, rfl, hc⟩

section

variable {ch : Chomping} {fuel l : Nat} {afterBlank : Bool} {before empty : List Char}

/-- One line of a block, its break, and what stands in front of the next line. -/
theorem blockLines_line {line : List Char} {b : Char} {s : LineStart} (hline : IsLine line) (hb : isBreak b = true)
    (hs : lineStart (some n) 0 ⟨l + 1, 0⟩ r = some s) :
    blockLines false ch n (fuel + 1) afterBlank before empty ⟨l, n⟩ (line ++ b :: r) =
      (blockLines false ch n fuel ((line.head?.map isBlank).getD false) [b] s.breaks s.position s.rest).map
        (.prepend (before ++ empty ++ line)) := by
  have htake : (line ++ b :: r).takeWhile (!isBreak ·) = line := by
    rw [List.takeWhile_append_of_pos (by simpa using hline.2), List.takeWhile_cons_of_neg (by simp [hb]),
      List.append_nil]
  rw [blockLines, if_pos ⟨rfl, by simp⟩]
  simp only [htake, List.drop_left, List.isEmpty_cons, Bool.false_eq_true, if_false, List.drop_one, List.tail_cons, hs,
    false_and, List.take_one, List.head?_cons, Option.toList_some]

/-- A line that is indented by less ends the block. -/
theorem blockLines_entry {p : Position} (hp : p.column < n) :
    blockLines false ch n (fuel + 1) afterBlank before empty p r =
      some ⟨(if ch = .strip then [] else before) ++ (if ch = .keep then empty else []), p, r⟩ := by
  rw [blockLines, if_neg]
  rintro ⟨hcolumn, -⟩
  omega

/-- The lines of a block, in front of a line that is indented by less. -/
theorem blockLines_of_block {out : List Char} (h : Block n ch cs out) (ht : StartsEntry t) (hindent : indentOf t < n) :
    ∀ (fuel l : Nat) (afterBlank : Bool) (before empty : List Char), out.length < fuel →
      ∃ l', blockLines false ch n fuel afterBlank before empty ⟨l, n⟩ (out ++ t) =
        some ⟨before ++ empty ++ cs, ⟨l', indentOf t⟩, wordOf t⟩ := by
  -- the last break and the empty lines behind it are open in `before` and `empty`; the next line settles them
  induction h with
  | @last line b bs hline hb hbs =>
    intro fuel l afterBlank before empty hfuel
    obtain ⟨fuel, rfl⟩ : ∃ m, fuel = m + 2 := ⟨fuel - 2, by simp at hfuel; omega⟩
    have hstart : lineStart (some n) 0 ⟨l + 1, 0⟩ (bs ++ t) =
        some ⟨bs, max 0 (indentOf t), ⟨l + 1 + bs.length, indentOf t⟩, wordOf t⟩ := by
      rw [lineStart_breaks hbs, lineStart_entry ht (by rintro _ ⟨⟩; exact hindent.le), Option.map_some, List.append_nil]
    refine ⟨l + 1 + bs.length, ?_⟩
    rw [List.append_assoc, List.cons_append, blockLines_line hline hb hstart, blockLines_entry hindent]
    simp [Scanned.prepend, Chomping.kept]
  | @more line b bs cs out hline hb hbs h ih =>
    intro fuel l afterBlank before empty hfuel
    obtain ⟨fuel, rfl⟩ : ∃ m, fuel = m + 1 := ⟨fuel - 1, by omega⟩
    obtain ⟨c, -, r, -, hout, hc⟩ := h.cons
    have hstart : lineStart (some n) 0 ⟨l + 1, 0⟩ (bs ++ (spaces n ++ (out ++ t))) =
        some ⟨bs, max 0 n, ⟨l + 1 + bs.length, n⟩, out ++ t⟩ := by
      rw [lineStart_breaks hbs, hout, List.cons_append, lineStart_content hc (.inr rfl), Option.map_some,
        List.append_nil]
    have hfuel' : out.length < fuel := by
      simp only [List.length_append, List.length_cons] at hfuel
      omega
    obtain ⟨l', htail⟩ := ih fuel (l + 1 + bs.length) ((line.head?.map isBlank).getD false) [b] bs hfuel'
    refine ⟨l', ?_⟩
    rw [List.append_assoc, List.cons_append, List.append_assoc, List.append_assoc,
      blockLines_line hline hb hstart, htail]
    simp [Scanned.prepend]

end

/-! ## Writing -/

theorem literalBody_line : ∀ {line : List Char}, (∀ c ∈ line, isBreak c = false) →
    literalBody n false (line ++ r) = line ++ literalBody n false r
  | [], _ => rfl
  | c :: line, h => by
    rw [List.cons_append, literalBody, if_neg (by simp [h c List.mem_cons_self]), if_neg (by simp), List.nil_append,
      literalBody_line fun d hd => h d (List.mem_cons_of_mem c hd), List.cons_append]

theorem literalBody_breaks : ∀ {bs : List Char}, (∀ b ∈ bs, isBreak b = true) →
    literalBody n true (bs ++ r) = bs ++ literalBody n true r
  | [], _ => rfl
  | b :: bs, h => by
    rw [List.cons_append, literalBody, if_pos (h b List.mem_cons_self),
      literalBody_breaks fun d hd => h d (List.mem_cons_of_mem b hd), List.cons_append]

/-- A line is written behind its indentation. -/
theorem literalBody_cons (hc : isBreak c = false) :
    literalBody n true (c :: r) = spaces n ++ literalBody n false (c :: r) := by
  simp [literalBody, hc]

/-- The break that ends the last line, unless the text has one there. -/
def lastBreak (cs : List Char) : List Char := if (cs.getLast?.map isBreak).getD false then [] else ['\n']

theorem lastBreak_append (h : cs ≠ []) (as : List Char) : lastBreak (as ++ cs) = lastBreak cs := by
  rw [lastBreak, lastBreak, List.getLast?_append, List.getLast?_eq_some_getLast h]
  rfl

/-- The mark for the end of a block. -/
def Chomping.mark : Chomping → List Char
  | strip => ['-']
  | clip => []
  | keep => ['+']

theorem IsLine.reverse {line : List Char} (h : IsLine line) : ∃ c r, line.reverse = c :: r ∧ isBreak c = false := by
  have hreverse : IsLine line.reverse := ⟨by simpa using h.1, by simpa using h.2⟩
  exact hreverse.cons

/-- The marks of a text that ends in a line. -/
theorem marks_of_line {line : List Char} (h : IsLine line) : chompingMark line = ['-'] ∧ lastBreak line = ['\n'] := by
  obtain ⟨c, r, hreverse, hc⟩ := h.reverse
  constructor
  · simp [chompingMark, hreverse, hc]
  · simp [lastBreak, ← List.head?_reverse, hreverse, hc]

/-- The marks of a text that ends in breaks behind a line. -/
theorem marks_of_breaks {line : List Char} {b : Char} {bs : List Char} (h : IsLine line) (hb : isBreak b = true)
    (hbs : ∀ b ∈ bs, isBreak b = true) :
    chompingMark (line ++ b :: bs) = (if bs = [] then [] else ['+']) ∧ lastBreak (line ++ b :: bs) = [] := by
  obtain ⟨c, r, hreverse, hc⟩ := h.reverse
  rcases List.eq_nil_or_concat bs with rfl | ⟨bs', y, rfl⟩
  · simp [chompingMark, lastBreak, hreverse, hc, hb]
  · have hy : isBreak y = true := hbs y (by simp)
    have hnext : isBreak (bs'.getLast?.getD b) = true := by
      cases hz : bs'.getLast? with
      | none => exact hb
      | some z => exact hbs z (by simp [List.mem_of_getLast? hz])
    constructor
    · simp [chompingMark, hy, hnext]
    · simp [lastBreak, ← List.head?_reverse, hy]

/-- The marks of a text of breaks only. -/
theorem marks_of_only_breaks {bs : List Char} (hne : bs ≠ []) (hbs : ∀ b ∈ bs, isBreak b = true) :
    indentationMark bs = ['2'] ∧ chompingMark bs = ['+'] ∧ lastBreak bs = [] := by
  refine ⟨?_, ?_, ?_⟩
  · cases bs with
    | nil => exact absurd rfl hne
    | cons b bs => simp [indentationMark, hbs b]
  · rcases List.eq_nil_or_concat bs with rfl | ⟨bs', y, rfl⟩
    · exact absurd rfl hne
    · have hnext : (bs'.getLast?.map isBreak).getD true = true := by
        cases hz : bs'.getLast? with
        | none => rfl
        | some z => exact hbs z (by simp [List.mem_of_getLast? hz])
      simp [chompingMark, hbs y, hnext]
  · simp [lastBreak, List.getLast?_eq_some_getLast hne, hbs _ (List.getLast_mem hne)]

theorem chompingMark_append (hc : isBreak c = false) (as : List Char) :
    chompingMark (as ++ c :: r) = chompingMark (c :: r) := by
  have hreverse : ∀ xs : List Char, xs.reverse = c :: r →
      chompingMark (as ++ xs.reverse) = chompingMark xs.reverse := by
    intro xs hxs
    cases xs with
    | nil => cases hxs
    | cons x xs =>
      cases xs with
      | nil =>
        obtain rfl : x = c := (List.cons.inj hxs).1
        simp [chompingMark, hc]
      | cons y ys =>
        rw [chompingMark, chompingMark, List.reverse_append, List.reverse_reverse]
        rfl
  simpa using hreverse (c :: r).reverse (List.reverse_reverse _)

/-- The longest start of a text whose characters have a property. -/
theorem exists_append (p : Char → Bool) (cs : List Char) :
    ∃ as bs, cs = as ++ bs ∧ (∀ a ∈ as, p a = true) ∧ ∀ b ∈ bs.head?, p b = false := by
  refine ⟨cs.takeWhile p, cs.dropWhile p, List.takeWhile_append_dropWhile.symm, fun a => List.mem_takeWhile_imp, ?_⟩
  intro b hb
  have hhead := List.head?_dropWhile_not p cs
  rw [hb] at hhead
  exact hhead

/-- A text is cut into lines and breaks, and the mark for its end is the one with which all of it is read. -/
theorem block_of_text {cs : List Char} (h : ∃ c r, cs = c :: r ∧ isBreak c = false) : ∃ ch : Chomping,
    chompingMark cs = ch.mark ∧ Block n ch cs (literalBody n false cs ++ lastBreak cs) := by
  obtain ⟨line, rest, hcs, hall, hrest⟩ := exists_append (!isBreak ·) cs
  have hline : IsLine line := by
    refine ⟨?_, by simpa using hall⟩
    rintro rfl
    obtain ⟨c, r, rfl, hc⟩ := h
    subst hcs
    simpa [hc] using hrest c rfl
  cases rest with
  | nil =>
    obtain ⟨hmark, hlast⟩ := marks_of_line hline
    have hbody : literalBody n false line = line := by
      simpa [literalBody] using literalBody_line (n := n) (r := []) hline.2
    rw [List.append_nil] at hcs
    subst hcs
    refine ⟨.strip, hmark, ?_⟩
    have hblock : Block n .strip (cs ++ Chomping.kept .strip '\n' []) (cs ++ ['\n']) := .last hline rfl (by simp)
    rw [hbody, hlast]
    simpa [Chomping.kept] using hblock
  | cons b rest =>
    have hb : isBreak b = true := by simpa using hrest b rfl
    -- the breaks behind the line belong to the end of the text if no line follows, and to its middle otherwise
    obtain ⟨bs, more, rfl, hbs, hmore⟩ := exists_append isBreak rest
    have hbody : literalBody n false cs = line ++ b :: (bs ++ literalBody n true more) := by
      rw [hcs, literalBody_line hline.2, literalBody, if_pos hb, literalBody_breaks hbs]
    cases more with
    | nil =>
      obtain ⟨hmark, hlast⟩ := marks_of_breaks hline hb hbs
      rw [List.append_nil] at hcs
      rw [literalBody, List.append_nil] at hbody
      rw [hbody, hcs, hmark, hlast, List.append_nil]
      by_cases hnil : bs = []
      · subst hnil
        exact ⟨.clip, rfl, .last hline hb hbs⟩
      · refine ⟨.keep, if_neg hnil, ?_⟩
        exact .last hline hb hbs
    | cons c r =>
      have hc := hmore c rfl
      have hcons : ∃ d r', c :: r = d :: r' ∧ isBreak d = false := ⟨c, r, rfl, hc⟩
      obtain ⟨ch, hmark, hblock⟩ := block_of_text hcons
      have hcs' : cs = (line ++ b :: bs) ++ c :: r := by simpa using hcs
      refine ⟨ch, ?_, ?_⟩
      · rw [hcs', chompingMark_append hc, hmark]
      · have hlast : lastBreak cs = lastBreak (c :: r) := by rw [hcs', lastBreak_append (List.cons_ne_nil c r)]
        rw [hbody, hlast, hcs, literalBody_cons hc]
        simpa using Block.more hline hb hbs hblock
termination_by cs.length
decreasing_by
  subst hcs
  simp
  omega

/-! ## Blocks -/

/-- The header says how the block ends and, where it is given, by how much its lines are indented. -/
theorem blockHeader?_marks (ch : Chomping) (isGiven : Bool) (r : List Char) : ∃ width,
    blockHeader? ((if isGiven then ['2'] else []) ++ ch.mark ++ '\n' :: r) =
        some (ch, if isGiven then some 2 else none, width) ∧
      ((if isGiven then ['2'] else []) ++ ch.mark ++ '\n' :: r).drop width = '\n' :: r := by
  cases ch <;> cases isGiven
  · exact ⟨1, rfl, rfl⟩
  · exact ⟨2, rfl, rfl⟩
  · exact ⟨0, rfl, rfl⟩
  · exact ⟨1, rfl, rfl⟩
  · exact ⟨1, rfl, rfl⟩
  · exact ⟨2, rfl, rfl⟩

section

variable {base : Nat} {p : Position} {ch : Chomping} {given : Option Nat} {width : Nat} {s : LineStart}

/-- A block whose header takes the rest of its line. -/
theorem blockScalar_header (hheader : blockHeader? cs = some (ch, given, width)) (hdrop : cs.drop width = '\n' :: r)
    (hs : lineStart (given.map (base - 1 + ·)) 0 ⟨p.line + 1, 0⟩ r = some s) :
    blockScalar false base p cs = blockLines false ch ((given.map (base - 1 + ·)).getD (max (max s.reached base) 1))
      (r.length + 1) false [] s.breaks s.position s.rest := by
  have hblanks : ('\n' :: r).takeWhile isBlank = [] := rfl
  rw [blockScalar, hheader]
  simp only [hdrop, hblanks, List.length_nil, Nat.add_zero, List.drop_zero, List.head?_cons, Option.some.injEq,
    Char.reduceEq, if_false, hs]
  rw [if_neg (by decide)]

/-- A given indentation counts from the collection around the block. -/
theorem map_indentation (hbase : 0 < base) (isGiven : Bool) :
    (if isGiven then some 2 else none).map (base - 1 + ·) = if isGiven then some (base + 1) else none := by
  cases isGiven with
  | false => rfl
  | true =>
    have hplus : base - 1 + 2 = base + 1 := by omega
    exact congrArg some hplus

/-- Lines behind breaks. Where the indentation is not given in the header, the first line shows it. -/
theorem blockScalar_lines {isGiven : Bool} {bs out : List Char} (hbase : 0 < base) (hbs : ∀ b ∈ bs, isBreak b = true)
    (h : Block (base + 1) ch cs out) (hfirst : isGiven = false → ∀ c ∈ cs.head?, isBlank c = false)
    (ht : StartsEntry t) (hindent : indentOf t < base) : ∃ l, blockScalar false base p
      ((if isGiven then ['2'] else []) ++ ch.mark ++ '\n' :: (bs ++ (spaces (base + 1) ++ (out ++ t)))) =
        some ⟨bs ++ cs, ⟨l, indentOf t⟩, wordOf t⟩ := by
  obtain ⟨c, r, r', hcs, hout, hc⟩ := h.cons
  have hstart : lineStart (if isGiven then some (base + 1) else none) 0 ⟨p.line + 1, 0⟩
      (bs ++ (spaces (base + 1) ++ (out ++ t))) =
        some ⟨bs, max 0 (base + 1), ⟨p.line + 1 + bs.length, base + 1⟩, out ++ t⟩ := by
    rw [lineStart_breaks hbs, hout, List.cons_append, lineStart_content hc, Option.map_some, List.append_nil]
    cases isGiven with
    | false => exact .inl ⟨rfl, hfirst rfl c (by rw [hcs]; rfl)⟩
    | true => exact .inr rfl
  have hindentation : (if isGiven then some (base + 1) else none).getD (max (max (max 0 (base + 1)) base) 1) =
      base + 1 := by
    cases isGiven with
    | false => simp
    | true => rfl
  obtain ⟨width, hheader, hdrop⟩ := blockHeader?_marks ch isGiven (bs ++ (spaces (base + 1) ++ (out ++ t)))
  have hfuel : out.length < (bs ++ (spaces (base + 1) ++ (out ++ t))).length + 1 := by
    simp only [List.length_append]
    omega
  obtain ⟨l, hread⟩ := blockLines_of_block h ht (Nat.lt_succ_of_lt hindent) _ (p.line + 1 + bs.length) false [] bs hfuel
  refine ⟨l, ?_⟩
  rw [blockScalar_header hheader hdrop (by rw [map_indentation hbase, hstart]), map_indentation hbase, hindentation]
  exact hread

/-- A text of breaks only; the block keeps all of them. -/
theorem blockScalar_breaks {bs : List Char} (hbase : 0 < base) (hbs : ∀ b ∈ bs, isBreak b = true) (ht : StartsEntry t)
    (hindent : indentOf t < base) :
    ∃ l, blockScalar false base p ('2' :: '+' :: '\n' :: (bs ++ t)) = some ⟨bs, ⟨l, indentOf t⟩, wordOf t⟩ := by
  have hstart : lineStart (if true then some (base + 1) else none) 0 ⟨p.line + 1, 0⟩ (bs ++ t) =
      some ⟨bs, max 0 (indentOf t), ⟨p.line + 1 + bs.length, indentOf t⟩, wordOf t⟩ := by
    rw [lineStart_breaks hbs, lineStart_entry ht (by rintro _ ⟨⟩; omega), Option.map_some, List.append_nil]
  obtain ⟨width, hheader, hdrop⟩ := blockHeader?_marks .keep true (bs ++ t)
  refine ⟨p.line + 1 + bs.length, ?_⟩
  rw [← map_indentation hbase true] at hstart
  have hread := blockScalar_header hheader hdrop hstart
  rw [map_indentation hbase] at hread
  simp only [if_true, Option.getD_some] at hread
  rw [blockLines_entry (Nat.lt_succ_of_lt hindent)] at hread
  exact hread

/-- A text that is not empty and has no tab, written as a block and read back. -/
theorem blockScalar_text (hbase : 0 < base) (hcs : cs ≠ []) (htab : ∀ c ∈ cs, c ≠ '\t') (ht : StartsEntry t)
    (hindent : indentOf t < base) : ∃ l, blockScalar false base p
      (indentationMark cs ++ chompingMark cs ++ '\n' :: (literalBody (base + 1) true cs ++ lastBreak cs ++ t)) =
        some ⟨cs, ⟨l, indentOf t⟩, wordOf t⟩ := by
  obtain ⟨bs, more, rfl, hbs, hmore⟩ := exists_append isBreak cs
  cases more with
  | nil =>
    -- no line shows the indentation, so the header gives it and all breaks are kept
    rw [List.append_nil] at hcs ⊢
    obtain ⟨hindentation, hchomping, hlast⟩ := marks_of_only_breaks hcs hbs
    have hbody : literalBody (base + 1) true bs = bs := by
      simpa [literalBody] using literalBody_breaks (n := base + 1) (r := []) hbs
    rw [hindentation, hchomping, hlast, hbody, List.append_nil]
    exact blockScalar_breaks hbase hbs ht hindent
  | cons c r =>
    have hc := hmore c rfl
    obtain ⟨ch, hmark, hblock⟩ := block_of_text (n := base + 1) ⟨c, r, rfl, hc⟩
    have hindentation : indentationMark (bs ++ c :: r) = if (!bs.isEmpty || c == ' ') then ['2'] else [] := by
      cases bs with
      | nil => simp [indentationMark, hc]
      | cons b bs => simp [indentationMark, hbs b]
    -- without a given indentation the first line is indented by what the writer put there and nothing of its own
    have hfirst : (!bs.isEmpty || c == ' ') = false → ∀ d ∈ (c :: r).head?, isBlank d = false := by
      rintro h _ ⟨⟩
      rw [Bool.or_eq_false_iff] at h
      simpa [isBlank, h.2] using htab c (by simp)
    rw [hindentation, chompingMark_append hc, hmark, literalBody_breaks hbs, literalBody_cons hc,
      lastBreak_append (List.cons_ne_nil c r)]
    simpa only [List.append_assoc] using blockScalar_lines hbase hbs hblock hfirst ht hindent

end

end CompactSearch.Yaml
