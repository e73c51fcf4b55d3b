/-
The machine that reads stored policies, against what their tokens describe. After every list of tokens the machine is at
a place, and each place says how far the tokens describe a policy (`Reads`). One step keeps this (`reads_step`), so a
text that is read to its end is described by the lists that were found (`describes_of_ofJsonText`).
-/
import CompactSearch.Proofs.Policy.Stored
import Mathlib.Data.List.Nodup

namespace CompactSearch

namespace Policy

open Json (Token)

variable {b : Bracket} {t : Token} {ts us : List Token} {es : List Entry} {role : FieldRole}
  {fields : Option (List String)} {names : List String} {first : Bool} {r r' : Reading} {phase : SkipPhase}
  {brackets : List Bracket}

/-! ## Places in front of a part -/

/-- A part is awaited: the first one behind the opening bracket, or another one behind a comma. -/
inductive Next (b : Bracket) : (first : Bool) → List Token → List Entry → Prop
  | first : Next b true [b.opening] []
  | another {ts : List Token} {es : List Entry} (h : Unclosed b ts es) : Next b false (ts ++ [.comma]) es

/-- The list of a role is awaited, behind its key or in its turn. -/
inductive Awaits : Bracket → List Token → List Entry → FieldRole → Prop
  | member {first : Bool} {ts : List Token} {es : List Entry} {key : String} {e : Option Json.ReadError}
    {role : FieldRole} (h : Next .object first ts es) (hk : FieldRole.ofKey? key = some role)
    (hn : role ∉ es.map (·.1)) : Awaits .object (ts ++ [.string (.ok key) e, .colon]) es role
  | item {first : Bool} {ts : List Token} {es : List Entry} {role : FieldRole} (h : Next .array first ts es)
    (hr : FieldRole.every[es.length]? = some role) : Awaits .array ts es role

theorem Next.nodup (h : Next .object first ts es) : (es.map (·.1)).Nodup := by
  cases h with
  | first => exact List.nodup_nil
  | another h =>
    cases h with
    | members _ hd => exact hd

theorem Next.member {es' : List Entry} (h : Next .object first ts es) (hm : Member us es')
    (hd : ((es ++ es').map (·.1)).Nodup) : Unclosed .object (ts ++ us) (es ++ es') := by
  cases h with
  | first => exact .members (.one hm) hd
  | another h =>
    cases h with
    | @members ts _ h _ =>
      have hts : .openObject :: ts ++ [.comma] ++ us = Token.openObject :: (ts ++ .comma :: us) := by simp
      rw [hts]
      exact .members (.more h hm) hd

theorem zip_concat {α β : Type} {x : α} {y : β} : ∀ {xs : List α} {ys : List β}, xs[ys.length]? = some x →
    xs.zip (ys ++ [y]) = xs.zip ys ++ [(x, y)]
  | [], ys, h => by simp at h
  | x' :: xs, [], h => by
    cases h
    simp
  | x' :: xs, y' :: ys, h => by
    have hxs : xs[ys.length]? = some x := h
    rw [List.cons_append, List.zip_cons_cons, List.zip_cons_cons, zip_concat hxs, List.cons_append]

/-- The list that is awaited completes a part. -/
theorem Awaits.list (h : Awaits b ts es role) (hl : SpellsList us fields) :
    Unclosed b (ts ++ us) (es ++ [(role, fields)]) := by
  cases h with
  | @member _ ts _ key e _ h hk hn =>
    have hd : ((es ++ [(role, fields)]).map (·.1)).Nodup := by
      rw [List.map_append]
      simpa using List.Nodup.concat hn h.nodup
    rw [List.append_assoc]
    exact h.member (.known hk hl) hd
  | item h hr =>
    cases h with
    | first =>
      cases hr
      exact .items (.one (.item hl)) (Nat.le_of_ble_eq_true rfl)
    | another h =>
      cases h with
      | @items ts lists h hlen =>
        have hlen' : (FieldRole.every.zip lists).length = lists.length := by
          rw [List.length_zip, Nat.min_eq_right hlen]
        rw [hlen'] at hr
        have hts : .openArray :: ts ++ [.comma] ++ us = Token.openArray :: (ts ++ .comma :: us) := by simp
        have hlt : lists.length < FieldRole.every.length := (List.getElem?_eq_some_iff.1 hr).1
        -- the next role in the order of all roles is the one that the next list goes with
        rw [hts, ← zip_concat hr]
        refine .items (.more h (.item hl)) ?_
        rw [List.length_append, List.length_singleton]
        omega

theorem Next.close (h : Next b true ts es) : Describes (ts ++ [b.closing]) es := by
  cases h
  exact .empty b

/-! ## Places inside a list -/

/-- The names of a list up to a place in it. -/
inductive ReadsNames : ListPhase → List Token → List String → Prop
  | first : ReadsNames .nameOrEnd [] []
  | another {us : List Token} {xs : List String} (h : Listed SpellsName us xs) : ReadsNames .name (us ++ [.comma]) xs
  | after {us : List Token} {xs : List String} (h : Listed SpellsName us xs) : ReadsNames .commaOrEnd us xs

theorem ReadsNames.name {p : ListPhase} {xs : List String} (h : ReadsNames p us xs) (hp : p ≠ .commaOrEnd) (s : String)
    (e : Option Json.ReadError) : ReadsNames .commaOrEnd (us ++ [.string (.ok s) e]) (xs ++ [s]) := by
  cases h with
  | first => exact .after (.one (.name s e))
  | another h =>
    rw [List.append_assoc]
    exact .after (.more h (.name s e))
  | after h => exact absurd rfl hp

/-! ## Values that are passed over -/

/-- Nothing of a value has been read yet, or it is open, and the brackets are those that are not closed yet. -/
inductive Passing : SkipPhase → List Bracket → List Token → Prop
  | start : Passing .value [] []
  | inside {phase : SkipPhase} {brackets : List Bracket} {us : List Token} (h : IsOpen us)
    (hd : depth us = brackets.length) : Passing phase brackets us

/-- The reading goes on with `n` brackets open: inside the value, or behind it if none is. -/
def PassesTo (r : Reading) (n : Int) (r' : Reading) : Prop :=
  (n = 0 ∧ r' = r.goTo .next) ∨
    ∃ phase brackets, 0 < n ∧ n = (brackets : List Bracket).length ∧ r' = r.goTo (.skip phase brackets)

theorem passesTo_afterSkipped (r : Reading) (brackets : List Bracket) :
    PassesTo r brackets.length (r.afterSkipped brackets) := by
  unfold Reading.afterSkipped
  cases brackets with
  | nil => exact .inl ⟨rfl, rfl⟩
  | cons b outer => exact .inr ⟨.commaOrEnd, b :: outer, by simp only [List.length_cons]; omega, rfl, rfl⟩

theorem passesTo_cons (r : Reading) (phase : SkipPhase) (b : Bracket) (outer : List Bracket) :
    PassesTo r (outer.length + 1) (r.goTo (.skip phase (b :: outer))) :=
  .inr ⟨phase, b :: outer, by omega, by simp, rfl⟩

theorem passesTo_of_skipValue (h : r.skipValue brackets t = .ok r') :
    t.startsValue = true ∧ PassesTo r (brackets.length + t.weight) r' := by
  unfold Reading.skipValue at h
  split at h
  · cases h
    exact ⟨rfl, passesTo_cons r _ _ _⟩
  · cases h
    exact ⟨rfl, passesTo_cons r _ _ _⟩
  · cases h
    exact ⟨rfl, by simpa [Token.weight] using passesTo_afterSkipped r brackets⟩
  · cases h
    exact ⟨rfl, by simpa [Token.weight] using passesTo_afterSkipped r brackets⟩
  · cases h
  · cases h
  · cases h

theorem passesTo_of_skipKey (h : r.skipKey brackets t = .ok r') (hb : brackets ≠ []) :
    PassesTo r (brackets.length + t.weight) r' := by
  obtain ⟨b, outer, rfl⟩ := List.exists_cons_of_ne_nil hb
  unfold Reading.skipKey at h
  split at h
  · cases h
    simpa [Token.weight] using passesTo_cons r .colon b outer
  · cases h
  · cases h

/-- A token changes the number of open brackets by its weight. -/
theorem passesTo_of_skipStep (h : r.skipStep phase brackets t = .ok r') (hb : phase = .value ∨ brackets ≠ []) :
    (phase = .value → t.startsValue = true) ∧ PassesTo r (brackets.length + t.weight) r' := by
  have hclose : ∀ (b : Bracket) (outer : List Bracket), t.weight = -1 →
      PassesTo r ((b :: outer).length + t.weight) (r.afterSkipped outer) := by
    intro b outer hw
    have hlen : ((b :: outer).length : Int) + t.weight = outer.length := by
      rw [hw, List.length_cons]
      omega
    rw [hlen]
    exact passesTo_afterSkipped r outer
  unfold Reading.skipStep at h
  split at h
  · cases h
    exact ⟨by simp, hclose _ _ rfl⟩
  · cases h
    exact ⟨by simp, hclose _ _ rfl⟩
  · exact ⟨fun _ => (passesTo_of_skipValue h).1, (passesTo_of_skipValue h).2⟩
  · exact ⟨by simp, (passesTo_of_skipValue h).2⟩
  · exact ⟨by simp, passesTo_of_skipKey h (hb.resolve_left (by simp))⟩
  · exact ⟨by simp, passesTo_of_skipKey h (hb.resolve_left (by simp))⟩
  · cases h
    obtain ⟨b, outer, rfl⟩ := List.exists_cons_of_ne_nil (hb.resolve_left (by simp))
    exact ⟨by simp, by simpa [Token.weight] using passesTo_cons r .value b outer⟩
  · cases h
    exact ⟨by simp, by simpa [Token.weight] using passesTo_cons r .value _ _⟩
  · cases h
    exact ⟨by simp, by simpa [Token.weight] using passesTo_cons r .key _ _⟩
  · cases h
    exact ⟨by simp, hclose _ _ rfl⟩
  · cases h
    exact ⟨by simp, hclose _ _ rfl⟩
  · cases h

/-- A token ends the value, or the value goes on. -/
theorem passing_step (hp : Passing phase brackets us) (h : r.skipStep phase brackets t = .ok r') :
    (IsValue (us ++ [t]) ∧ r' = r.goTo .next) ∨
      ∃ phase' brackets', Passing phase' brackets' (us ++ [t]) ∧ r' = r.goTo (.skip phase' brackets') := by
  cases hp with
  | start =>
    obtain ⟨hstart, hpass⟩ := passesTo_of_skipStep h (.inl rfl)
    have hs := hstart rfl
    rw [List.length_nil, Int.natCast_zero, Int.zero_add] at hpass
    rcases hpass with ⟨hw, rfl⟩ | ⟨phase', brackets', hpos, hlen, rfl⟩
    · exact .inl ⟨isValue_singleton hs hw, rfl⟩
    · have hw : t.weight = 1 := by
        cases t <;> simp [Token.weight] at hpos ⊢
      refine .inr ⟨phase', brackets', .inside (isOpen_singleton hs hw) ?_, rfl⟩
      simpa using hlen
  | inside ho hd =>
    -- what is open has opened more brackets than it has closed, so the stack has one to close
    have hne : brackets ≠ [] := by
      rintro rfl
      obtain ⟨x, vs, rfl, -⟩ := ho.start
      have hpos := ho.inside _ [] (List.append_nil _).symm (List.cons_ne_nil x vs)
      rw [hd] at hpos
      simp at hpos
    have hdepth : depth (us ++ [t]) = brackets.length + t.weight := by simp [hd]
    obtain ⟨-, ⟨hw, rfl⟩ | ⟨phase', brackets', hpos, hlen, rfl⟩⟩ := passesTo_of_skipStep h (.inr hne)
    · exact .inl ⟨ho.close (hdepth.trans hw), rfl⟩
    · exact .inr ⟨phase', brackets', .inside (ho.concat (by rwa [hdepth])) (hdepth.trans hlen), rfl⟩

/-! ## Steps -/

/-- How far the tokens describe a policy at the place of the reading. -/
inductive Reads : Reading → List Token → Prop
  | start {b : Bracket} : Reads ⟨b, [], .start⟩ []
  | key {first : Bool} {ts : List Token} {es : List Entry} (h : Next .object first ts es.reverse) :
    Reads ⟨.object, es, .key first⟩ ts
  | colon {first : Bool} {ts : List Token} {es : List Entry} {key : String} {e : Option Json.ReadError}
    {role? : Option FieldRole} (h : Next .object first ts es.reverse) (hk : FieldRole.ofKey? key = role?)
    (hn : ∀ role ∈ role?, role ∉ es.reverse.map (·.1)) :
    Reads ⟨.object, es, .colon role?⟩ (ts ++ [.string (.ok key) e])
  | value {ts : List Token} {es : List Entry} {role : FieldRole} (h : Awaits .object ts es.reverse role) :
    Reads ⟨.object, es, .value role⟩ ts
  | item {first : Bool} {ts : List Token} {es : List Entry} (h : Next .array first ts es.reverse) :
    Reads ⟨.array, es, .item first⟩ ts
  | names {b : Bracket} {ts us : List Token} {es : List Entry} {role : FieldRole} {p : ListPhase} {xs : List String}
    (h : Awaits b ts es.reverse role) (hn : ReadsNames p us xs.reverse) :
    Reads ⟨b, es, .names role p xs⟩ (ts ++ .openArray :: us)
  | skip {first : Bool} {ts us : List Token} {es : List Entry} {key : String} {e : Option Json.ReadError}
    {phase : SkipPhase} {brackets : List Bracket} (h : Next .object first ts es.reverse)
    (hk : FieldRole.ofKey? key = none) (hp : Passing phase brackets us) :
    Reads ⟨.object, es, .skip phase brackets⟩ (ts ++ .string (.ok key) e :: .colon :: us)
  | next {b : Bracket} {ts : List Token} {es : List Entry} (h : Unclosed b ts es.reverse) : Reads ⟨b, es, .next⟩ ts
  | done {b : Bracket} {ts : List Token} {es : List Entry} (h : Describes ts es.reverse) : Reads ⟨b, es, .done⟩ ts

theorem reads_startStep (h : r.startStep t = .ok r') (he : r.entries = []) : Reads r' [t] := by
  obtain ⟨b, es, p⟩ := r
  cases he
  unfold Reading.startStep at h
  split at h
  · cases h
    exact .key .first
  · cases h
    exact .item .first
  all_goals cases h

theorem reads_keyStep (hn : Next .object first ts es.reverse) (p : Place)
    (h : Reading.keyStep ⟨.object, es, p⟩ t = .ok r') : Reads r' (ts ++ [t]) := by
  unfold Reading.keyStep at h
  split at h
  · split at h
    · rename_i hk
      cases h
      exact .colon hn hk (by simp)
    · rename_i role hk
      split at h
      · cases h
      · rename_i hnew
        cases h
        refine .colon hn hk ?_
        -- the machine looks for the role in its entries, which are newest first
        rintro _ ⟨⟩ hmem
        rw [List.map_reverse, List.mem_reverse] at hmem
        obtain ⟨x, hx, rfl⟩ := List.mem_map.1 hmem
        exact hnew (List.any_eq_true.2 ⟨x, hx, beq_self_eq_true _⟩)
  · cases h
  · cases h

/-- A list that has been read completes its part. -/
theorem reads_record (ha : Awaits b ts es.reverse role) (hl : SpellsList us fields) (p : Place) :
    Reads (Reading.record ⟨b, es, p⟩ role fields) (ts ++ us) := by
  refine .next ?_
  rw [List.reverse_cons]
  exact ha.list hl

theorem reads_startValue (ha : Awaits b ts es.reverse role) (p : Place)
    (h : Reading.startValue ⟨b, es, p⟩ role t = .ok r') : Reads r' (ts ++ [t]) := by
  unfold Reading.startValue at h
  split at h
  · cases h
    exact .names ha .first
  · cases h
    exact reads_record ha (.null _) p
  all_goals cases h

theorem reads_itemStep (hn : Next .array first ts es.reverse) (p : Place)
    (h : (match Reading.nextRole? ⟨.array, es, p⟩ with
      | some role => Reading.startValue ⟨.array, es, p⟩ role t
      | none => .error .malformed) = .ok r') : Reads r' (ts ++ [t]) := by
  split at h
  · rename_i role hrole
    have hturn : FieldRole.every[es.reverse.length]? = some role := by
      rw [List.length_reverse]
      exact hrole
    exact reads_startValue (.item hn hturn) p h
  · cases h

theorem reads_addName {p : ListPhase} (ha : Awaits b ts es.reverse role) (hn : ReadsNames p us names.reverse)
    (hp : p ≠ .commaOrEnd) (place : Place)
    (h : Reading.addName ⟨b, es, place⟩ role names t = .ok r') : Reads r' (ts ++ .openArray :: us ++ [t]) := by
  unfold Reading.addName at h
  split at h
  · rename_i s e
    cases h
    have hnames := hn.name hp s e
    rw [← List.reverse_cons] at hnames
    rw [List.append_assoc, List.cons_append]
    exact .names ha hnames
  all_goals cases h

theorem reads_namesStep {p : ListPhase} (ha : Awaits b ts es.reverse role) (hn : ReadsNames p us names.reverse)
    (h : Reading.step ⟨b, es, .names role p names⟩ t = .ok r') : Reads r' (ts ++ .openArray :: us ++ [t]) := by
  cases p with
  | name => cases t <;> exact reads_addName ha hn (by simp) (.names role .name names) h
  | nameOrEnd =>
    cases t with
    | closeArray =>
      generalize names.reverse = xs at hn
      cases hn
      cases h
      rw [List.append_assoc]
      exact reads_record ha (.names .nothing) _
    | _ => exact reads_addName ha hn (by simp) (.names role .nameOrEnd names) h
  | commaOrEnd =>
    have hl : Listed SpellsName us names.reverse := by
      generalize names.reverse = xs at hn
      cases hn with
      | after hl => exact hl
    cases t with
    | comma =>
      cases h
      rw [List.append_assoc, List.cons_append]
      exact .names ha (.another hl)
    | closeArray =>
      cases h
      rw [List.append_assoc]
      exact reads_record ha (.names (.parts hl)) _
    | _ => cases h

theorem reads_skipStep (hn : Next .object first ts es.reverse) {key : String} {e : Option Json.ReadError}
    (hk : FieldRole.ofKey? key = none) (hp : Passing phase brackets us)
    (h : Reading.skipStep ⟨.object, es, .skip phase brackets⟩ phase brackets t = .ok r') :
    Reads r' (ts ++ .string (.ok key) e :: .colon :: us ++ [t]) := by
  rw [List.append_assoc, List.cons_append, List.cons_append]
  rcases passing_step hp h with ⟨hv, rfl⟩ | ⟨phase', brackets', hp', rfl⟩
  · have hd : ((es.reverse ++ ([] : List Entry)).map (·.1)).Nodup := by
      rw [List.append_nil]
      exact hn.nodup
    have hm : Member (.string (.ok key) e :: .colon :: (us ++ [t])) [] := .unknown hk hv
    have hu := hn.member hm hd
    rw [List.append_nil] at hu
    exact .next hu
  · exact .skip hn hk hp'

theorem reads_nextStep (hu : Unclosed b ts es.reverse) (h : Reading.step ⟨b, es, .next⟩ t = .ok r') :
    Reads r' (ts ++ [t]) := by
  cases b with
  | object =>
    cases t with
    | comma =>
      cases h
      exact .key (.another hu)
    | closeObject =>
      cases h
      exact .done (.parts hu)
    | _ => cases h
  | array =>
    cases t with
    | comma =>
      unfold Reading.step at h
      simp only at h
      split at h
      · cases h
        exact .item (.another hu)
      · cases h
    | closeArray =>
      cases h
      exact .done (.parts hu)
    | _ => cases h

/-- A step of the machine reads one token more. -/
theorem reads_step (hr : Reads r ts) (h : r.step t = .ok r') : Reads r' (ts ++ [t]) := by
  cases hr with
  | start => exact reads_startStep h rfl
  | @key first _ _ hn =>
    cases first with
    | false => exact reads_keyStep hn (.key false) h
    | true =>
      cases t with
      | closeObject =>
        cases h
        exact .done hn.close
      | _ => exact reads_keyStep hn (.key true) h
  | @colon _ _ _ _ _ role? hn hk hnew =>
    cases role? with
    | none =>
      cases t with
      | colon =>
        cases h
        rw [List.append_assoc]
        exact .skip hn hk .start
      | _ => cases h
    | some role =>
      cases t with
      | colon =>
        cases h
        rw [List.append_assoc]
        exact .value (.member hn hk (hnew role rfl))
      | _ => cases h
  | value ha => exact reads_startValue ha _ h
  | @item first ts es hn =>
    cases first with
    | false => exact reads_itemStep hn _ h
    | true =>
      cases t with
      | closeArray =>
        cases h
        exact .done hn.close
      | _ => exact reads_itemStep hn _ h
  | names ha hn => exact reads_namesStep ha hn h
  | skip hn hk hp => exact reads_skipStep hn hk hp h
  | next hu => exact reads_nextStep hu h
  | done => cases t <;> cases h

theorem reads_run : ∀ {us ts : List Token} {r r' : Reading}, Reads r ts → r.run us = .ok r' → Reads r' (ts ++ us)
  | [], ts, r, r', hr, h => by
    cases h
    rwa [List.append_nil]
  | t :: us, ts, r, r', hr, h => by
    rw [Reading.run] at h
    split at h
    · cases h
    · rename_i r₁ hstep
      have hread := reads_run (reads_step hr hstep) h
      rwa [List.append_assoc] at hread

theorem fst_zip_sublist {α β : Type} : ∀ (xs : List α) (ys : List β), ((xs.zip ys).map (·.1)).Sublist xs
  | [], _ => by simp
  | x :: xs, [] => by simp
  | x :: xs, y :: ys => by
    rw [List.zip_cons_cons, List.map_cons]
    exact (fst_zip_sublist xs ys).cons_cons x

/-- No role has two lists. -/
theorem Describes.nodup (h : Describes ts es) : (es.map (·.1)).Nodup := by
  cases h with
  | empty => exact List.nodup_nil
  | parts h =>
    cases h with
    | members _ hd => exact hd
    | items => exact (fst_zip_sublist _ _).nodup (by decide)

end Policy

/-- A text that is read as a policy describes the lists that the policy is made of. -/
theorem describes_of_ofJsonText {s : String} {p : FieldPolicy} {ws : List DroppedName}
    (h : FieldPolicy.ofJsonText s = .ok (p, ws)) :
    ∃ es, Policy.Describes (Json.tokens s.toList) es ∧ (p, ws) = FieldPolicy.ofEntries es := by
  unfold FieldPolicy.ofJsonText at h
  split at h
  · cases h
  · rename_i r hrun
    split at h
    · rename_i hdone
      have hread : Policy.Reads r (Json.tokens s.toList) := Policy.reads_run .start hrun
      refine ⟨r.entries.reverse, ?_, (Except.ok.inj h).symm⟩
      obtain ⟨b, es, place⟩ := r
      cases hdone
      cases hread with
      | done hd => exact hd
    · cases h

end CompactSearch
