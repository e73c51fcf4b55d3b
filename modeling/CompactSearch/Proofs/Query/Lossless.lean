/-
Where the tokens of a text stand. Cutting the text at the positions of its tokens gives one spelling of each token, with
nothing left over, and every character of the text says which token it belongs to (`lossless_of_tokens`).

The two ways into a cut text are by token and by index: the text in front of a token is cut into the tokens in front of
it (`stands_of_split`), and every character belongs to the spelling of some token (`exists_token`). In both cases the
last character in front of the token says whether a leaf can start there (`flag_of_cuts`), so nothing has to be known
about the state of the lexer.
-/
import CompactSearch.Proofs.Query.Dialects

namespace CompactSearch.Lexer

variable {d : Dialect} {b b' : Bool} {p i j : Nat} {c : Char} {t : Token} {x : Placed}
  {cs pre w v post rest : List Char} {ts us : List Placed}

/-! ## Texts cut at places -/

/-- The parts of a text that start at the given places. Each part ends where the next one starts, the last one with the
text. -/
def cutAt (cs : List Char) : List Nat → List (List Char)
  | [] => []
  | [p] => [cs.drop p]
  | p :: q :: ps => (cs.drop p).take (q - p) :: cutAt cs (q :: ps)

theorem flatten_cutAt (cs : List Char) : ∀ {p : Nat} {ps : List Nat}, (p :: ps).Pairwise (· < ·) →
    (cutAt cs (p :: ps)).flatten = cs.drop p
  | p, [], _ => by simp [cutAt]
  | p, q :: ps, h => by
    obtain ⟨hp, hps⟩ := List.pairwise_cons.1 h
    have hpq : p < q := hp q List.mem_cons_self
    have hdrop : cs.drop q = (cs.drop p).drop (q - p) := by
      rw [List.drop_drop]
      congr 1
      omega
    rw [cutAt, List.flatten_cons, flatten_cutAt cs hps, hdrop, List.take_append_drop]

/-- The tokens of a text stand between its ends. -/
theorem position_of_cuts (h : Cuts d b p v rest ts b') : ∀ x ∈ ts, p ≤ x.position ∧ x.position < p + v.length := by
  induction h with
  | done => exact fun x hx => absurd hx List.not_mem_nil
  | @token b b' p t w v rest ts ht _ ih =>
    have hw : 0 < w.length := List.length_pos_iff.2 (ne_nil_of_takes ht)
    rw [List.forall_mem_cons, List.length_append]
    refine ⟨⟨Nat.le_refl p, by simp only; omega⟩, ?_⟩
    intro x hx
    obtain ⟨h₁, h₂⟩ := ih x hx
    constructor <;> omega

theorem pairwise_position (h : Cuts d b p v rest ts b') : (ts.map (·.position)).Pairwise (· < ·) := by
  induction h with
  | done => exact .nil
  | @token b b' p t w v rest ts ht h ih =>
    have hw : 0 < w.length := List.length_pos_iff.2 (ne_nil_of_takes ht)
    refine List.pairwise_cons.2 ⟨?_, ih⟩
    intro q hq
    obtain ⟨x, hx, rfl⟩ := List.mem_map.1 hq
    have hle := (position_of_cuts h x hx).1
    simp only
    omega

theorem head_position (h : Cuts d b p v rest ts b') : ∀ x ∈ ts.head?, x.position = p := by
  cases h with
  | done => rintro x ⟨⟩
  | token ht h => rintro x ⟨⟩; rfl

/-- The parts between the positions of the tokens are their spellings. -/
theorem spells_cutAt {u : List Char} (h : Cuts d b p v [] ts b') (hu : u.length = p) :
    List.Forall₂ (fun x w => Spells d x.token w) ts (cutAt (u ++ v) (ts.map (·.position))) := by
  generalize hr : ([] : List Char) = rest at h
  -- over the tokens, where the text in front of them grows by the spelling of each one
  induction h generalizing u with
  | done => exact .nil
  | @token b b' p t w v rest ts ht h ih =>
    subst hr hu
    have hrest := ih (u := u ++ w) (by rw [List.length_append]) rfl
    rw [List.append_assoc] at hrest
    cases ts with
    | nil =>
      have hv : v = [] := by
        cases h with
        | done => rfl
      rw [hv, List.append_nil]
      refine .cons ?_ .nil
      rw [List.drop_left]
      exact spells_of_takes ht
    | cons y ts =>
      have hy : y.position = u.length + w.length := head_position h y rfl
      have hpart : ((u ++ (w ++ v)).drop u.length).take (y.position - u.length) = w := by
        rw [hy, Nat.add_sub_cancel_left, List.drop_left, List.take_left]
      have hspells : Spells d t (((u ++ (w ++ v)).drop u.length).take (y.position - u.length)) := by
        rw [hpart]
        exact spells_of_takes ht
      exact .cons hspells hrest

/-! ## Places where a leaf can start -/

/-- A leaf can start behind the text: it is empty, or it ends with a space or an opening parenthesis. -/
def leafStart (pre : List Char) : Bool := pre.getLast?.all fun c => c == ' ' || c == '('

theorem leafStart_append (u : List Char) (hv : v ≠ []) : leafStart (u ++ v) = leafStart v := by
  rw [leafStart, leafStart, List.getLast?_append_of_ne_nil u hv]

/-- Whether a leaf can start behind a token is seen at the last character of its spelling. -/
theorem precedesLeaf_eq (h : Takes d b t w rest) : t.precedesLeaf = leafStart w := by
  cases h with
  | @quoted k run _ h =>
    have hlast : (quotes (k + 1) (run ++ List.replicate (k + 1) '"')).getLast? = some '"' := by
      rw [quotes, ← List.append_assoc, List.getLast?_append_of_ne_nil _ (by simp), List.getLast?_replicate,
        if_neg (Nat.succ_ne_zero k)]
    rw [leafStart, hlast]
    rfl
  | run h _ _ =>
    have hlast := List.getLast?_eq_some_getLast h.ne_nil
    have hne := ne_sign_of_free (h.free _ (List.getLast_mem h.ne_nil))
    have hspace := hne ' ' (by simp)
    have hopen := hne '(' (by simp)
    rw [leafStart, hlast]
    simp [Token.precedesLeaf, hspace, hopen]
  | op o _ => cases o <;> rfl
  | minus | space | or | openGroup | closeGroup => rfl

/-- Whether a leaf can start behind a cut is seen at the last character in front of it. -/
theorem flag_of_cuts (h : Cuts d b p v rest ts b') (hv : v ≠ []) : b' = leafStart v := by
  induction h with
  | done => exact absurd rfl hv
  | @token b b' p t w v rest ts ht h ih =>
    by_cases hnil : v = []
    · subst hnil
      rw [h.flag_of_nil, precedesLeaf_eq ht, List.append_nil]
    · rw [ih hnil, leafStart_append w hnil]

theorem leafStart_of_cuts (h : Cuts d true p pre rest ts b') : b' = leafStart pre := by
  by_cases hnil : pre = []
  · subst hnil
    exact h.flag_of_nil
  · exact flag_of_cuts h hnil

theorem leadingDash_iff : LeadingDash true (pre ++ rest) pre.length ↔ rest.head? = some '-' ∧ leafStart pre = true := by
  rcases List.eq_nil_or_concat pre with rfl | ⟨u, c, rfl⟩
  · rw [List.head?_eq_getElem?]
    exact Iff.rfl
  · have hdash : (u ++ [c] ++ rest)[u.length + 1]? = rest.head? := by
      rw [List.head?_eq_getElem?]
      simpa using getElem?_length_add (u ++ [c]) rest 0
    have hlast : (u ++ [c] ++ rest)[u.length]? = some c := by simp
    rw [List.concat_eq_append, List.length_append, List.length_singleton, LeadingDash, hdash, hlast, leafStart,
      List.getLast?_concat]
    simp

/-! ## Tokens in a text -/

/-- The token `x` stands between `ts` and `us`: it takes `w` behind the text `pre` that is cut into `ts`, and in front of
the text `post` that is cut into `us`. -/
structure Stands (d : Dialect) (ts : List Placed) (x : Placed) (us : List Placed) (pre w post : List Char) : Prop where
  front : Cuts d true 0 pre (w ++ post) ts (leafStart pre)
  position : x.position = pre.length
  takes : Takes d (leafStart pre) x.token w post
  back : ∃ b, Cuts d x.token.precedesLeaf (pre.length + w.length) post [] us b

theorem stands_of_split (h : Cuts d true 0 cs [] (ts ++ x :: us) b) :
    ∃ pre w post, cs = pre ++ (w ++ post) ∧ Stands d ts x us pre w post := by
  obtain ⟨pre, v, b₁, hcs, hfront, hback⟩ := h.split
  rw [List.append_nil] at hfront
  have hflag := leafStart_of_cuts hfront
  subst hflag
  cases hback with
  | @token _ _ _ t w post _ _ ht h =>
    rw [List.append_nil] at ht
    rw [Nat.zero_add] at h
    exact ⟨pre, w, post, hcs, hfront, Nat.zero_add _, ht, b, h⟩

/-- Every index of a text lies in the spelling of a token. -/
theorem exists_position (h : Cuts d b p v rest ts b') (hp : p ≤ i) (hi : i < p + v.length) :
    ∃ ts₁ x ts₂, ts = ts₁ ++ x :: ts₂ ∧ x.position ≤ i ∧ (∀ y ∈ ts₂.head?, i < y.position) := by
  induction h with
  | done => exact absurd hi (by simpa using hp)
  | @token b b' p t w v rest ts ht h ih =>
    by_cases hw : i < p + w.length
    · refine ⟨[], ⟨t, p⟩, ts, rfl, hp, ?_⟩
      intro y hy
      rwa [head_position h y hy]
    · rw [List.length_append] at hi
      obtain ⟨ts₁, x, ts₂, rfl, hx, hy⟩ := ih (by omega) (by omega)
      exact ⟨⟨t, p⟩ :: ts₁, x, ts₂, rfl, hx, hy⟩

theorem exists_stands_of_mem (h : Cuts d true 0 cs [] ts b) (hx : x ∈ ts) :
    ∃ ts₁ ts₂ pre w post, ts = ts₁ ++ x :: ts₂ ∧ cs = pre ++ (w ++ post) ∧ Stands d ts₁ x ts₂ pre w post := by
  obtain ⟨ts₁, ts₂, rfl⟩ := List.append_of_mem hx
  obtain ⟨pre, w, post, hcs, hs⟩ := stands_of_split h
  exact ⟨ts₁, ts₂, pre, w, post, rfl, hcs, hs⟩

/-- Every character of a text belongs to the spelling of a token. -/
theorem exists_token (h : Cuts d true 0 cs [] ts b) (hc : cs[i]? = some c) :
    ∃ t pre w post j, ⟨t, pre.length⟩ ∈ ts ∧ cs = pre ++ (w ++ post) ∧ Takes d (leafStart pre) t w post ∧
      i = pre.length + j ∧ w[j]? = some c := by
  have hi : i < cs.length := (List.getElem?_eq_some_iff.1 hc).1
  obtain ⟨ts₁, ⟨t, p⟩, ts₂, rfl, hx, hy⟩ := exists_position h (Nat.zero_le i) (by omega)
  obtain ⟨pre, w, post, rfl, -, hp, ht, b', hback⟩ := stands_of_split h
  simp only at hp hx
  subst hp
  obtain ⟨j, rfl⟩ := Nat.exists_eq_add_of_le hx
  -- the spelling reaches to the next token, and that of the last one to the end of the text
  have hlt : j < w.length := by
    cases hback with
    | done => simpa using hi
    | token => exact Nat.add_lt_add_iff_left.1 (hy _ rfl)
  rw [getElem?_length_add, List.getElem?_append_left hlt] at hc
  exact ⟨t, pre, w, post, j, by simp, rfl, ht, rfl, hc⟩

/-- Any other token ends in front of the token or starts behind it. -/
theorem Stands.apart {y : Placed} (h : Stands d ts x us pre w post) (hy : y ∈ ts ++ x :: us) (hne : y ≠ x) :
    y.position < pre.length ∨ pre.length + w.length ≤ y.position := by
  obtain ⟨b, hback⟩ := h.back
  rcases List.mem_append.1 hy with hy | hy
  · left
    simpa using (position_of_cuts h.front y hy).2
  · right
    rcases List.mem_cons.1 hy with rfl | hy
    · exact absurd rfl hne
    · exact (position_of_cuts hback y hy).1

/-! ## Characters of a spelling -/

theorem mem_of_spelled_value {y : Value} (h : Takes d b (.value y) w rest) (hc : c ∈ w) :
    c = '"' ∨ d.isReserved c = false := by
  cases h with
  | quoted k h =>
    simp only [quotes, List.mem_append, List.mem_replicate] at hc
    rcases hc with ⟨-, hc⟩ | hc | ⟨-, hc⟩
    · exact .inl hc
    · exact .inr (h.free c hc)
    · exact .inl hc
  | run h _ _ => exact .inr (h.free c hc)

/-- The signs that both dialects reserve, quotes apart, stand in no value. -/
theorem ne_sign_of_spelled_value {y : Value} (h : Takes d b (.value y) w rest) (hc : c ∈ w) :
    ∀ x ∈ [' ', '(', ')', ':', '=', '>', '<'], c ≠ x := by
  have hsub : [' ', '(', ')', ':', '=', '>', '<'] ⊆ [' ', '(', ')', ':', '=', '>', '<', '"'] :=
    List.subset_append_left _ ['"']
  intro x hx
  rcases mem_of_spelled_value h hc with rfl | hfree
  · rintro rfl
    simp at hx
  · exact ne_sign_of_free hfree x (hsub hx)

/-- A space is a token of its own, or one of the two in the spelling of an `OR`. -/
theorem token_of_space (h : Takes d b t w rest) (hj : w[j]? = some ' ') :
    (t = .space ∧ j = 0) ∨ (t = .or ∧ (j = 0 ∨ j = 3)) := by
  have hmem : ' ' ∈ w := List.mem_of_getElem? hj
  cases t with
  | value y => exact absurd rfl (ne_sign_of_spelled_value h hmem ' ' (by simp))
  | space =>
    cases h with
    | space =>
      refine .inl ⟨rfl, ?_⟩
      have hlt := (List.getElem?_eq_some_iff.1 hj).1
      simpa using hlt
  | or =>
    cases h with
    | or =>
      refine .inr ⟨rfl, ?_⟩
      rcases j with _ | _ | _ | _ | j
      · exact .inl rfl
      · simp at hj
      · simp at hj
      · exact .inr rfl
      · simp at hj
  | op o =>
    cases h with
    | op => cases o <;> simp [Operator.text] at hmem
  | minus | openGroup | closeGroup => cases h; simp at hmem

/-- The comparison `narrow` has the sign `c`, and an equals sign behind it makes it `wide`. -/
inductive Widens : (c : Char) → (narrow wide : Operator) → Prop
  | greater : Widens '>' .gt .gte
  | less : Widens '<' .lt .lte

/-- The sign of a comparison starts its token. -/
theorem token_of_comparison {narrow wide : Operator} (hc : Widens c narrow wide) (h : Takes d b t w rest)
    (hj : w[j]? = some c) : j = 0 ∧ (t = .op wide ∨ t = .op narrow) := by
  have hmem : c ∈ w := List.mem_of_getElem? hj
  cases t with
  | value y =>
    have hne := ne_sign_of_spelled_value h hmem
    cases hc with
    | greater => exact absurd rfl (hne '>' (by simp))
    | less => exact absurd rfl (hne '<' (by simp))
  | op o =>
    cases h with
    | op => cases hc <;> rcases j with _ | _ | j <;> cases o <;> simp [Operator.text] at hj ⊢
  | minus | openGroup | closeGroup | space | or => cases h; cases hc <;> simp at hmem

/-- A dash is a token of its own, or one of the characters of a value. -/
theorem token_of_dash (h : Takes d b t w rest) (hj : w[j]? = some '-') : (t = .minus ∧ j = 0) ∨ ∃ y, t = .value y := by
  have hmem : '-' ∈ w := List.mem_of_getElem? hj
  cases t with
  | value y => exact .inr ⟨y, rfl⟩
  | minus =>
    cases h with
    | minus =>
      refine .inl ⟨rfl, ?_⟩
      have hlt := (List.getElem?_eq_some_iff.1 hj).1
      simpa using hlt
  | op o =>
    cases h with
    | op => cases o <;> simp [Operator.text] at hmem
  | space | or | openGroup | closeGroup => cases h; simp at hmem

/-- What stands in front of a run is a reserved character or the sign of negation. -/
theorem last_before_run (h : Takes d b t w (c :: rest)) (hc : d.isReserved c = false) :
    ∃ u y, w = u ++ [y] ∧ (d.isReserved y = true ∨ t = .minus ∧ w = ['-']) := by
  cases h with
  | @quoted k run _ h =>
    refine ⟨quotes (k + 1) (run ++ List.replicate k '"'), '"', ?_, .inl (by cases d <;> rfl)⟩
    rw [List.replicate_succ', quotes_append, List.append_assoc]
  | run h _ hr =>
    -- a run in front of it would have gone on
    have hends := hr c rfl
    rw [hc] at hends
    cases hends
  | minus => exact ⟨[], '-', rfl, .inr ⟨rfl, rfl⟩⟩
  | op o _ =>
    cases o with
    | default => exact ⟨[], ':', rfl, .inl (by cases d <;> rfl)⟩
    | eq => exact ⟨[], '=', rfl, .inl (by cases d <;> rfl)⟩
    | gte => exact ⟨['>'], '=', rfl, .inl (by cases d <;> rfl)⟩
    | lte => exact ⟨['<'], '=', rfl, .inl (by cases d <;> rfl)⟩
    | gt => exact ⟨[], '>', rfl, .inl (by cases d <;> rfl)⟩
    | lt => exact ⟨[], '<', rfl, .inl (by cases d <;> rfl)⟩
  | space => exact ⟨[], ' ', rfl, .inl (by cases d <;> rfl)⟩
  | or => exact ⟨[' ', 'O', 'R'], ' ', rfl, .inl (by cases d <;> rfl)⟩
  | openGroup => exact ⟨[], '(', rfl, .inl (by cases d <;> rfl)⟩
  | closeGroup => exact ⟨[], ')', rfl, .inl (by cases d <;> rfl)⟩

/-! ## Lossless cuts -/

/-- The text spells the value at the place as a run between `k` quotes on either side. The run is as long as it can be
there: no free character stands behind it, and none in front of it but a sign of negation. -/
structure SpellsValue (d : Dialect) (cs : List Char) (ts : List Placed) (p : Nat) (v : Value) (k : Nat)
    (run post : List Char) : Prop where
  text : cs.drop p = quotes k (run ++ quotes k post)
  isRun : IsRun d run
  value : v = .ofRun (String.ofList run)
  behind : EndsRun d (quotes k post)
  front : ∀ c ∈ (cs.take p ++ List.replicate k '"').getLast?, d.isReserved c = true ∨ (c = '-' ∧ ⟨.minus, p - 1⟩ ∈ ts)

/-- The tokens and their positions say all that the text says, and each of them what the text says at its place. -/
structure Lossless (d : Dialect) (cs : List Char) (ts : List Placed) : Prop where
  /-- The first token stands at the front of the text. -/
  head : ∀ x ∈ ts.head?, x.position = 0
  increasing : (ts.map (·.position)).Pairwise (· < ·)
  joined : (cutAt cs (ts.map (·.position))).flatten = cs
  spelled : List.Forall₂ (fun x w => Spells d x.token w) ts (cutAt cs (ts.map (·.position)))
  /-- A value keeps the characters of its run. -/
  values : ∀ v p, ⟨.value v, p⟩ ∈ ts →
    ∃ k run post, SpellsValue d cs ts p v k run post ∧ v.text = String.ofList run
  /-- From left to right, each ` OR ` is a token that does not overlap the one in front of it. -/
  ors : ∀ i, ⟨.or, i⟩ ∈ ts ↔ [' ', 'O', 'R', ' '] <+: cs.drop i ∧ ∀ q < i, ⟨.or, q⟩ ∈ ts → q + 4 ≤ i
  /-- Every space that is not the first or the last character of such a token is a token. -/
  spaces : ∀ i, ⟨.space, i⟩ ∈ ts ↔ cs[i]? = some ' ' ∧ ∀ q, ⟨.or, q⟩ ∈ ts → i ≠ q ∧ i ≠ q + 3
  /-- A comparison and the equals sign behind it are one token. -/
  gte : ∀ i, ['>', '='] <+: cs.drop i → ⟨.op .gte, i⟩ ∈ ts
  lte : ∀ i, ['<', '='] <+: cs.drop i → ⟨.op .lte, i⟩ ∈ ts
  /-- The signs of negation are the dashes where a leaf can start. -/
  dashes : ∀ i, ⟨.minus, i⟩ ∈ ts ↔ d = .document ∧ LeadingDash true cs i

section Whole

variable {y : Value}

/-- A run goes back to a reserved character, to a sign of negation, or to the front of the text. -/
theorem front_of_run (h : Cuts d true 0 pre (c :: rest) ts b) (hc : d.isReserved c = false) :
    ∀ y ∈ pre.getLast?, d.isReserved y = true ∨ (y = '-' ∧ ⟨.minus, pre.length - 1⟩ ∈ ts) := by
  rcases List.eq_nil_or_concat ts with rfl | ⟨us, z, rfl⟩
  · cases h
    rintro y ⟨⟩
  · rw [List.concat_eq_append] at h ⊢
    obtain ⟨v, w, b₁, rfl, -, hlast⟩ := h.split
    cases hlast with
    | @token _ _ _ t w v' _ _ ht hnil =>
      have hv : v' = [] := by
        cases hnil with
        | done => rfl
      subst hv
      obtain ⟨u, e, rfl, he⟩ := last_before_run ht hc
      intro y hy
      rw [List.append_nil, ← List.append_assoc, List.getLast?_concat] at hy
      cases hy
      rcases he with he | ⟨rfl, hw⟩
      · exact .inl he
      · obtain ⟨rfl, rfl⟩ : e = '-' ∧ u = [] := by simpa using congrArg List.reverse hw
        exact .inr ⟨rfl, by simp⟩

theorem spellsValue_of_mem (h : Cuts d true 0 cs [] ts b) (hy : ⟨.value y, p⟩ ∈ ts) :
    ∃ k run post, SpellsValue d cs ts p y k run post ∧ y.text = String.ofList run := by
  obtain ⟨ts₁, ts₂, pre, w, post, rfl, rfl, hs⟩ := exists_stands_of_mem h hy
  obtain ⟨hfront, rfl, ht, -⟩ := hs
  cases ht with
  | @quoted k run _ hrun =>
    refine ⟨k + 1, run, post, ⟨?_, hrun, rfl, ?_, ?_⟩, Value.text_ofRun _⟩
    · rw [List.drop_left, quotes_append, List.append_assoc]
      rfl
    · rintro c ⟨⟩
      cases d <;> rfl
    · intro c hc
      rw [List.replicate_succ', ← List.append_assoc, List.getLast?_concat] at hc
      cases hc
      left
      cases d <;> rfl
  | run hrun _ hends =>
    refine ⟨0, w, post, ⟨?_, hrun, rfl, hends, ?_⟩, Value.text_ofRun _⟩
    · rw [List.drop_left]
      rfl
    · rw [List.take_left, List.replicate_zero, List.append_nil]
      obtain ⟨c, r, rfl⟩ := List.exists_cons_of_ne_nil hrun.ne_nil
      intro e he
      rcases front_of_run hfront (hrun.free c List.mem_cons_self) e he with hres | ⟨hdash, hm⟩
      · exact .inl hres
      · exact .inr ⟨hdash, List.mem_append_left _ hm⟩

/-- No token starts inside of an ` OR `. -/
theorem apart_of_or {q : Nat} (h : Cuts d true 0 cs [] ts b) (hq : ⟨.or, q⟩ ∈ ts) (hx : x ∈ ts) (hne : x ≠ ⟨.or, q⟩) :
    x.position < q ∨ q + 4 ≤ x.position := by
  obtain ⟨ts₁, ts₂, pre, w, post, rfl, rfl, hs⟩ := exists_stands_of_mem h hq
  have hapart := hs.apart hx hne
  obtain ⟨-, rfl, ht, -⟩ := hs
  cases ht
  exact hapart

theorem getElem?_of_prefix_drop {r : List Char} (h : c :: r <+: cs.drop i) : cs[i]? = some c := by
  obtain ⟨u, hu⟩ := h
  rw [← List.head?_drop, ← hu]
  rfl

theorem or_mem_iff (h : Cuts d true 0 cs [] ts b) :
    ⟨.or, i⟩ ∈ ts ↔ [' ', 'O', 'R', ' '] <+: cs.drop i ∧ ∀ q < i, ⟨.or, q⟩ ∈ ts → q + 4 ≤ i := by
  constructor
  · intro hi
    constructor
    · obtain ⟨ts₁, ts₂, pre, w, post, rfl, rfl, -, rfl, ht, -⟩ := exists_stands_of_mem h hi
      cases ht
      rw [List.drop_left]
      exact List.prefix_append _ _
    · intro q hq hmem
      have hne : (⟨.or, i⟩ : Placed) ≠ ⟨.or, q⟩ := by
        intro he
        cases he
        omega
      have hapart := apart_of_or h hmem hi hne
      simp only at hapart
      omega
  · rintro ⟨hor, hfree⟩
    obtain ⟨t, pre, w, post, j, hmem, rfl, ht, rfl, hj⟩ := exists_token h (getElem?_of_prefix_drop hor)
    rcases token_of_space ht hj with ⟨rfl, rfl⟩ | ⟨rfl, rfl | rfl⟩
    · -- the space would not be a token in front of `OR`
      cases ht with
      | space hno =>
        rw [Nat.add_zero, List.drop_left, List.cons_append, List.nil_append, List.cons_prefix_cons] at hor
        exact absurd hor.2 hno
    · exact hmem
    · -- it would be the last space of an ` OR ` that overlaps
      have hle := hfree pre.length (by omega) hmem
      omega

theorem space_mem_iff (h : Cuts d true 0 cs [] ts b) :
    ⟨.space, i⟩ ∈ ts ↔ cs[i]? = some ' ' ∧ ∀ q, ⟨.or, q⟩ ∈ ts → i ≠ q ∧ i ≠ q + 3 := by
  constructor
  · intro hi
    constructor
    · obtain ⟨ts₁, ts₂, pre, w, post, rfl, rfl, -, rfl, ht, -⟩ := exists_stands_of_mem h hi
      cases ht
      simp
    · intro q hmem
      have hapart := apart_of_or h hmem hi (by simp)
      simp only at hapart
      constructor <;> omega
  · rintro ⟨hspace, hfree⟩
    obtain ⟨t, pre, w, post, j, hmem, rfl, ht, rfl, hj⟩ := exists_token h hspace
    rcases token_of_space ht hj with ⟨rfl, rfl⟩ | ⟨rfl, hor⟩
    · exact hmem
    · obtain ⟨h₁, h₂⟩ := hfree pre.length hmem
      omega

/-- The longer spelling of a comparison wins. -/
theorem wide_mem {narrow wide : Operator} (hc : Widens c narrow wide) (h : Cuts d true 0 cs [] ts b)
    (hi : [c, '='] <+: cs.drop i) : ⟨.op wide, i⟩ ∈ ts := by
  obtain ⟨t, pre, w, post, j, hmem, rfl, ht, rfl, hj⟩ := exists_token h (getElem?_of_prefix_drop hi)
  obtain ⟨rfl, rfl | rfl⟩ := token_of_comparison hc ht hj
  · exact hmem
  · rw [Nat.add_zero, List.drop_left] at hi
    cases ht with
    | op o hne =>
      obtain ⟨r, hr⟩ := hi
      cases hc with
      | greater => cases hr; exact absurd rfl (hne (.inl rfl))
      | less => cases hr; exact absurd rfl (hne (.inr rfl))

theorem getElem?_of_leadingDash {leafStart : Bool} (h : LeadingDash leafStart cs i) : cs[i]? = some '-' := by
  cases i with
  | zero => exact h.1
  | succ i => exact h.1

theorem minus_mem_iff (h : Cuts d true 0 cs [] ts b) :
    ⟨.minus, i⟩ ∈ ts ↔ d = .document ∧ LeadingDash true cs i := by
  constructor
  · intro hi
    obtain ⟨ts₁, ts₂, pre, w, post, rfl, rfl, -, rfl, ht, -⟩ := exists_stands_of_mem h hi
    cases ht with
    | minus hm =>
      obtain ⟨hd, hb⟩ := Bool.and_eq_true_iff.1 hm
      refine ⟨?_, leadingDash_iff.2 ⟨rfl, hb⟩⟩
      cases d with
      | document => rfl
      | relational => cases hd
  · rintro ⟨rfl, hdash⟩
    obtain ⟨t, pre, w, post, j, hmem, rfl, ht, rfl, hj⟩ := exists_token h (getElem?_of_leadingDash hdash)
    cases j with
    | zero =>
      rcases token_of_dash ht hj with ⟨rfl, -⟩ | ⟨y, rfl⟩
      · exact hmem
      · cases ht with
        | quoted => cases hj
        | run hrun hm _ =>
          have hno := hm (by rwa [List.head?_eq_getElem?])
          rw [(leadingDash_iff.1 hdash).2] at hno
          cases hno
    | succ j =>
      have hlt : j + 1 < w.length := (List.getElem?_eq_some_iff.1 hj).1
      have hlast : (pre ++ (w ++ post))[pre.length + j]? = some ' ' ∨
        (pre ++ (w ++ post))[pre.length + j]? = some '(' := hdash.2
      rw [getElem?_length_add, List.getElem?_append_left (by omega)] at hlast
      -- a space or a parenthesis inside the spelling would have to stand in a value
      rcases token_of_dash ht hj with ⟨-, hj0⟩ | ⟨y, rfl⟩
      · cases hj0
      · obtain ⟨e, he, hsign⟩ : ∃ e ∈ w, e = ' ' ∨ e = '(' := by
          rcases hlast with hl | hl
          · exact ⟨' ', List.mem_of_getElem? hl, .inl rfl⟩
          · exact ⟨'(', List.mem_of_getElem? hl, .inr rfl⟩
        have hne := ne_sign_of_spelled_value ht he
        rcases hsign with rfl | rfl
        · exact absurd rfl (hne ' ' (by simp))
        · exact absurd rfl (hne '(' (by simp))

end Whole

/-- The tokens of a text are a lossless cut of it: their positions start at zero and increase, the parts of the text
between them are spellings of the tokens and nothing is left over. Each token is as long as it can be: a value has the
whole run, ` OR ` and the comparisons with an equals sign are one token, and any other space is a token. In the document
dialect the dashes where a leaf can start are tokens, and no others are. -/
theorem lossless_of_tokens {d : Dialect} {s : String} {ts : List Placed} (h : tokens d s = .ok ts) :
    Lossless d s.toList ts := by
  obtain ⟨b, hcut⟩ := tokensFrom_eq_ok_iff.1 h
  have hinc := pairwise_position hcut
  have hhead := head_position hcut
  refine ⟨hhead, hinc, ?_, spells_cutAt (u := []) hcut rfl, fun v p => spellsValue_of_mem hcut,
    fun i => or_mem_iff hcut, fun i => space_mem_iff hcut, fun i => wide_mem .greater hcut,
    fun i => wide_mem .less hcut, fun i => minus_mem_iff hcut⟩
  cases ts with
  | nil =>
    generalize s.toList = cs at hcut
    cases hcut with
    | done => rfl
  | cons x ts =>
    have hx : x.position = 0 := hhead x rfl
    rw [List.map_cons] at hinc ⊢
    rw [flatten_cutAt _ hinc, hx, List.drop_zero]

/-- Two overlapping ` OR `, a dash in front of a value, one inside of a run, and a comparison with quotes behind it. -/
theorem lossless_of_tokens_overlapping :
    tokens .document "-a OR OR b-c>=\"1\"" = .ok [⟨.minus, 0⟩, ⟨.value (.string "a"), 1⟩, ⟨.or, 2⟩,
        ⟨.value (.string "OR"), 6⟩, ⟨.space, 8⟩, ⟨.value (.string "b-c"), 9⟩, ⟨.op .gte, 12⟩,
        ⟨.value (.number ⟨"1", by decide⟩), 14⟩] ∧
      Lossless .document "-a OR OR b-c>=\"1\"".toList [⟨.minus, 0⟩, ⟨.value (.string "a"), 1⟩, ⟨.or, 2⟩,
        ⟨.value (.string "OR"), 6⟩, ⟨.space, 8⟩, ⟨.value (.string "b-c"), 9⟩, ⟨.op .gte, 12⟩,
        ⟨.value (.number ⟨"1", by decide⟩), 14⟩] := by
  have h : tokens .document "-a OR OR b-c>=\"1\"" = .ok [⟨.minus, 0⟩, ⟨.value (.string "a"), 1⟩, ⟨.or, 2⟩,
      ⟨.value (.string "OR"), 6⟩, ⟨.space, 8⟩, ⟨.value (.string "b-c"), 9⟩, ⟨.op .gte, 12⟩,
      ⟨.value (.number ⟨"1", by decide⟩), 14⟩] := by decide +kernel
  exact ⟨h, lossless_of_tokens h⟩

end CompactSearch.Lexer
