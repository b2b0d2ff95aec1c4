/-
Bolide.Lib.Whole — whole occurrences, and what replacing them leaves.

An occurrence of a word in a text is whole when neither neighbour of it is
part of a word. A text is `Cut` when some whole occurrences of a word are
replaced by a mark, and `P` is what the parts between the marks satisfy.

A scan from the left that keeps an occurrence goes on after it, and so it
never looks at an occurrence that overlaps what it keeps. `Clean` says of a
word that nothing is lost by that. A later pass with another word puts marks
where letters were, and `Spares` says of the two words that it makes no
occurrence whole by that.
-/
import Bolide.Lib.Text

namespace Lib

variable {α : Type}

/-- There is no letter here. -/
def Edge (letter : α → Bool) (c : Option α) : Prop := c.any letter = false

instance (letter : α → Bool) (c : Option α) : Decidable (Edge letter c) :=
  inferInstanceAs (Decidable (_ = _))

section Edge

variable {letter : α → Bool}

@[simp] theorem edge_none : Edge letter none := rfl

theorem not_edge {c : Option α} : ¬ Edge letter c ↔ c.any letter = true := by
  rw [Edge, Bool.not_eq_false]

/-- An edge is the end of what comes last, if there is any. -/
theorem Edge.getLast?_append {s t : List α} (h : Edge letter (s ++ t).getLast?) :
    Edge letter t.getLast? := by
  cases ht : t.getLast? with
  | none => exact edge_none
  | some c => rwa [List.getLast?_append, ht] at h

theorem Edge.append_of_ne_nil {s t : List α} (ht : t ≠ []) (h : Edge letter t.getLast?) :
    Edge letter (s ++ t).getLast? := by
  rwa [List.getLast?_append_of_ne_nil _ ht]

/-- A list ends with an edge when both parts of it do. -/
theorem Edge.append {s t : List α} (hs : Edge letter s.getLast?) (ht : Edge letter t.getLast?) :
    Edge letter (s ++ t).getLast? := by
  cases hlast : t.getLast? with
  | none =>
      rw [List.getLast?_eq_none_iff.mp hlast, List.append_nil]
      exact hs
  | some c =>
      rw [hlast] at ht
      rwa [List.getLast?_append, hlast]

theorem Edge.head?_append {s t : List α} (h : Edge letter (s ++ t).head?) :
    Edge letter s.head? := by
  cases s with
  | nil => exact edge_none
  | cons c s => exact h

end Edge

/-! ## Whole occurrences -/

/-- The word is somewhere in the text, and not as a part of a longer one. -/
def Whole (letter : α → Bool) (word text : List α) : Prop :=
  ∃ before after, text = before ++ word ++ after ∧ Edge letter before.getLast? ∧
    Edge letter after.head?

theorem Whole.refl (letter : α → Bool) (word : List α) : Whole letter word word :=
  ⟨[], [], by simp, edge_none, edge_none⟩

/-- What is whole in a word is whole where the word is. -/
theorem Whole.trans {letter : α → Bool} {part word text : List α} (hpart : Whole letter part word)
    (hword : Whole letter word text) : Whole letter part text := by
  obtain ⟨x, y, rfl, hx, hy⟩ := hpart
  obtain ⟨before, after, rfl, hbefore, hafter⟩ := hword
  refine ⟨before ++ x, y ++ after, by simp only [List.append_assoc], hbefore.append hx, ?_⟩
  cases y with
  | nil => exact hafter
  | cons c y => exact hy

/-- Of two lists that share nothing, the one that starts first ends before the other starts. -/
theorem ends_before {s t u v a : List α} (ht : t ≠ []) (hst : ∀ c ∈ s, c ∉ t)
    (h : s ++ u = a ++ (t ++ v)) : ∃ b, a = s ++ b ∧ u = b ++ (t ++ v) := by
  rcases List.append_eq_append_iff.mp h with ⟨b, ha, hu⟩ | ⟨b, hs, htv⟩
  · exact ⟨b, ha, hu⟩
  · cases b with
    | nil => exact ⟨[], by simpa using hs.symm, by simpa using htv.symm⟩
    | cons c b =>
        cases t with
        | nil => exact absurd rfl ht
        | cons c' t =>
            rw [List.cons_append, List.cons_append, List.cons.injEq] at htv
            exact absurd (by simp [htv.1]) (hst c (by simp [hs]))

/-- An occurrence that shares nothing with the mark is on one side of it. -/
theorem beside_mark {word mark before after left right : List α} (hword : word ≠ [])
    (hne : mark ≠ []) (hmark : ∀ c ∈ word, c ∉ mark)
    (h : left ++ mark ++ right = before ++ word ++ after) :
    (∃ after', left = before ++ word ++ after' ∧ after = after' ++ mark ++ right) ∨
      ∃ before', right = before' ++ word ++ after ∧ before = left ++ mark ++ before' := by
  simp only [List.append_assoc] at h ⊢
  rcases List.append_eq_append_iff.mp h with ⟨a, rfl, ha⟩ | ⟨a, rfl, ha⟩
  · obtain ⟨b, rfl, hright⟩ := ends_before hword (fun c hc hc' => hmark c hc' hc) ha
    exact .inr ⟨b, hright, rfl⟩
  · obtain ⟨b, rfl, hafter⟩ := ends_before hne hmark ha
    exact .inl ⟨b, rfl, hafter⟩

/-! ## Cut texts -/

/-- `text` is `source` with whole occurrences of `word` replaced by the mark. -/
inductive Cut (letter : α → Bool) (word mark : List α) (P : List α → Prop) :
    List α → List α → Prop
  | rest {part : List α} : P part → Cut letter word mark P part part
  | cut {part source text : List α} : P part → Edge letter part.getLast? →
      Edge letter source.head? → Cut letter word mark P source text →
      Cut letter word mark P (part ++ word ++ source) (part ++ mark ++ text)

section Cut

variable {letter : α → Bool} {word mark source text : List α}

theorem Cut.mono {P Q : List α → Prop} (hPQ : ∀ part, P part → Q part)
    (h : Cut letter word mark P source text) : Cut letter word mark Q source text := by
  induction h with
  | rest hpart => exact .rest (hPQ _ hpart)
  | cut hpart hleft hright _ ih => exact .cut (hPQ _ hpart) hleft hright ih

/-- What is in no part is nowhere in the text. -/
theorem Cut.not_whole {other : List α} (hother : other ≠ []) (hne : mark ≠ [])
    (hmark : ∀ c ∈ other, c ∉ mark)
    (h : Cut letter word mark (fun part => ¬ Whole letter other part) source text) :
    ¬ Whole letter other text := by
  induction h with
  | rest hpart => exact hpart
  | cut hpart _ _ _ ih =>
      rintro ⟨before, after, htext, hbefore, hafter⟩
      rcases beside_mark hother hne hmark htext with
        ⟨after', hleft, rfl⟩ | ⟨before', hright, rfl⟩
      · rw [List.append_assoc] at hafter
        exact hpart ⟨before, after', hleft, hbefore, hafter.head?_append⟩
      · exact ih ⟨before', after, hright, hbefore.getLast?_append, hafter⟩

/-- Cutting out `word` makes no occurrence of `other` whole. -/
structure Spares (letter : α → Bool) (word other : List α) : Prop where
  first : ¬ Edge letter word.getLast? → ¬ Edge letter other.head?
  last : ¬ Edge letter word.head? → ¬ Edge letter other.getLast?

/-- What may be before a text that a cut has been made in. -/
def Gone (letter : α → Bool) (word gone source : List α) : Prop :=
  gone = [] ∨ gone.getLast? = word.getLast? ∧ Edge letter source.head?

theorem Gone.edge {other gone before after : List α} (hother : other ≠ [])
    (hspares : Spares letter word other)
    (hgone : Gone letter word gone (before ++ other ++ after))
    (hbefore : Edge letter before.getLast?) : Edge letter (gone ++ before).getLast? := by
  by_cases hnil : before = []
  · subst hnil
    rw [List.append_nil]
    rcases hgone with rfl | ⟨hlast, hhead⟩
    · exact edge_none
    · rw [List.nil_append, List.head?_append_of_ne_nil _ hother] at hhead
      rw [hlast]
      by_contra hletter
      exact hspares.first hletter hhead
  · rwa [List.getLast?_append_of_ne_nil _ hnil]

/-- Where `other` was not whole, it is whole in no part. -/
theorem Cut.spares {other : List α} (hword : word ≠ []) (hother : other ≠ [])
    (hspares : Spares letter word other) (h : Cut letter word mark (fun _ => True) source text)
    {gone : List α} (hgone : Gone letter word gone source)
    (hnot : ¬ Whole letter other (gone ++ source)) :
    Cut letter word mark (fun part => ¬ Whole letter other part) source text := by
  induction h generalizing gone with
  | @rest part _ =>
      refine .rest ?_
      rintro ⟨before, after, rfl, hbefore, hafter⟩
      exact hnot ⟨gone ++ before, after, by simp, hgone.edge hother hspares hbefore, hafter⟩
  | @cut part source text _ hpart hsource _ ih =>
      have hgone' : Gone letter word (gone ++ part ++ word) source :=
        .inr ⟨List.getLast?_append_of_ne_nil _ hword, hsource⟩
      refine .cut ?_ hpart hsource (ih hgone' (by simpa using hnot))
      rintro ⟨before, after, rfl, hbefore, hafter⟩
      have hbegin : Gone letter word gone (before ++ other ++ (after ++ word ++ source)) := by
        simpa using hgone
      refine hnot ⟨gone ++ before, after ++ word ++ source, by simp,
        hbegin.edge hother hspares hbefore, ?_⟩
      cases after with
      | cons c after => exact hafter
      | nil =>
          -- the occurrence ends where the word starts
          rw [List.append_nil, List.getLast?_append_of_ne_nil _ hother] at hpart
          rw [List.nil_append, List.head?_append_of_ne_nil _ hword]
          by_contra hletter
          exact hspares.last hletter hpart

end Cut

/-! ## Words a scan finds -/

/-- Keeping an occurrence of the word loses no other one. -/
structure Clean (letter : α → Bool) (word : List α) : Prop where
  border : ∀ k < word.length, 0 < k → word.drop k <+: word →
    ¬ Edge letter (word.take k).getLast?
  ends : ¬ Edge letter word.head? → ¬ Edge letter word.getLast?

/-- The scan has nothing to look for in what it has read. -/
def Dead (letter : α → Bool) (word read rest : List α) : Prop :=
  ∀ before after, read ++ rest = before ++ word ++ after → before.length < read.length →
    Edge letter before.getLast? →
      ∃ after', read = before ++ word ++ after' ∧ ¬ Edge letter after.head?

/-- The first occurrence of the word in a text. -/
structure First (word before after text : List α) : Prop where
  eq : text = before ++ word ++ after
  first : ∀ before' after', text = before' ++ word ++ after' → before.length ≤ before'.length

section Clean

variable {letter : α → Bool} {word read before after rest : List α}

theorem dead_nil (rest : List α) : Dead letter word [] rest :=
  fun _ _ _ hlt => absurd hlt (Nat.not_lt_zero _)

/-- The shorter of two starts of a list is the start of the other. -/
theorem append_of_length_le {a b c d : List α} (h : a ++ b = c ++ d)
    (hlength : a.length ≤ c.length) : ∃ t, c = a ++ t ∧ b = t ++ d := by
  rcases List.append_eq_append_iff.mp h with ⟨t, hc, hb⟩ | ⟨t, ha, hd⟩
  · exact ⟨t, hc, hb⟩
  · have ht : t = [] := by
      rw [ha, List.length_append] at hlength
      exact List.length_eq_zero_iff.mp (by omega)
    subst ht
    exact ⟨[], by simpa using ha.symm, by simpa using hd.symm⟩

/-- An occurrence that overlaps the one before it has a letter before it. -/
theorem Clean.overlap (hclean : Clean letter word) {t y : List α} (ht : t ≠ [])
    (hlt : t.length < word.length) (h : word ++ after = t ++ (word ++ y)) :
    ¬ Edge letter t.getLast? := by
  obtain ⟨u, rfl, hu⟩ := append_of_length_le h.symm hlt.le
  have hborder := hclean.border t.length hlt (List.length_pos_of_ne_nil ht)
  rw [List.drop_left, List.take_left] at hborder
  refine hborder (List.prefix_of_prefix_length_le ⟨after, hu.symm⟩ ⟨y, rfl⟩ ?_)
  simp

/-- An occurrence has been read, and a neighbour of it is a letter. -/
theorem Dead.keep (hclean : Clean letter word) (hdead : Dead letter word read rest)
    (hfirst : First word before after rest)
    (hkeep : Edge letter (read ++ before).getLast? → ¬ Edge letter after.head?) :
    Dead letter word (read ++ before ++ word) after := by
  intro x y htext hlt hx
  have htext' : read ++ rest = x ++ (word ++ y) := by
    rw [hfirst.eq, ← List.append_assoc x, ← htext]
    simp only [List.append_assoc]
  by_cases hread : x.length < read.length
  · obtain ⟨z, rfl, hz⟩ := hdead x y (by rw [htext', List.append_assoc]) hread hx
    exact ⟨z ++ before ++ word, by simp only [List.append_assoc], hz⟩
  · obtain ⟨x, rfl, hrest⟩ := append_of_length_le htext' (Nat.le_of_not_lt hread)
    have hle := hfirst.first x y (by rw [hrest, List.append_assoc])
    rw [hfirst.eq, List.append_assoc] at hrest
    obtain ⟨t, rfl, ht⟩ := append_of_length_le hrest hle
    cases t with
    | nil =>
        rw [List.nil_append, List.append_cancel_left_eq] at ht
        rw [List.append_nil] at hx ⊢
        exact ⟨[], by simp, ht ▸ hkeep hx⟩
    | cons c t =>
        have hne : c :: t ≠ [] := List.cons_ne_nil c t
        refine absurd ?_ (hclean.overlap hne ?_ ht)
        · rwa [← List.append_assoc, List.getLast?_append_of_ne_nil _ hne] at hx
        · simp only [List.length_append] at hlt
          omega

/-- All has been read. -/
theorem Dead.not_whole (hdead : Dead letter word read rest)
    (hnone : ∀ before after, rest ≠ before ++ word ++ after) :
    ¬ Whole letter word (read ++ rest) := by
  rintro ⟨x, y, htext, hx, hy⟩
  by_cases hread : x.length < read.length
  · obtain ⟨-, -, hletter⟩ := hdead x y htext hread hx
    exact hletter hy
  · rw [List.append_assoc] at htext
    obtain ⟨x, rfl, hrest⟩ := append_of_length_le htext (Nat.le_of_not_lt hread)
    exact hnone x y (by rw [hrest, List.append_assoc])

/-- What comes before an occurrence that is cut. -/
theorem Dead.part (hword : word ≠ []) (hclean : Clean letter word)
    (hdead : Dead letter word read rest) (hfirst : First word before after rest)
    (hedge : Edge letter (read ++ before).getLast?) :
    ¬ Whole letter word (read ++ before) := by
  rintro ⟨x, y, htext, hx, hy⟩
  have htext' : read ++ rest = x ++ word ++ (y ++ word ++ after) := by
    rw [hfirst.eq, List.append_assoc before, ← List.append_assoc read, htext]
    simp only [List.append_assoc]
  by_cases hread : x.length < read.length
  · obtain ⟨z, hz, hletter⟩ := hdead x _ htext' hread hx
    cases y with
    | cons c y => exact hletter hy
    | nil =>
        -- the occurrence is what comes right before the one that is cut
        rw [List.nil_append, List.head?_append_of_ne_nil _ hword] at hletter
        rw [htext, List.append_nil, List.getLast?_append_of_ne_nil _ hword] at hedge
        exact hclean.ends hletter hedge
  · rw [List.append_assoc x] at htext'
    obtain ⟨x, rfl, hrest⟩ := append_of_length_le htext' (Nat.le_of_not_lt hread)
    have hle := hfirst.first x (y ++ word ++ after) (by rw [hrest, List.append_assoc x])
    have hlength := congrArg List.length htext
    have hpos := List.length_pos_of_ne_nil hword
    simp only [List.length_append] at hlength
    omega

end Clean

/-! ## `splitOnce` -/

namespace Text

variable {sep s before after : Text}

/-- Where a text is taken apart, the separator is for the first time. -/
theorem first_of_splitOnce (h : splitOnce sep s = some (before, after)) :
    First sep before after s := by
  induction s generalizing before with
  | nil =>
      rw [splitOnce, Option.ite_none_right_eq_some] at h
      obtain ⟨rfl, h⟩ := h
      cases h
      exact ⟨rfl, fun _ _ _ => Nat.zero_le _⟩
  | cons c s ih =>
      cases hprefix : sep.isPrefixOf? (c :: s) with
      | some rest =>
          simp only [splitOnce, hprefix, Option.some.injEq, Prod.mk.injEq] at h
          obtain ⟨rfl, rfl⟩ := h
          have heq := List.isPrefixOf?_eq_some_iff_append_eq.mp hprefix
          exact ⟨heq.symm, fun _ _ _ => Nat.zero_le _⟩
      | none =>
          simp only [splitOnce, hprefix, Option.map_eq_some_iff] at h
          obtain ⟨⟨b, a⟩, hsplit, hcons⟩ := h
          cases hcons
          have hfirst := ih hsplit
          refine ⟨by simp [hfirst.eq], ?_⟩
          intro before' after' heq
          cases before' with
          | nil =>
              have hsome := List.isPrefixOf?_eq_some_iff_append_eq.mpr heq.symm
              rw [List.nil_append, hprefix] at hsome
              cases hsome
          | cons c' before' =>
              simp only [List.cons_append, List.cons.injEq] at heq
              exact Nat.succ_le_succ (hfirst.first before' after' heq.2)

theorem splitOnce_eq_none_iff :
    splitOnce sep s = none ↔ ∀ before after, s ≠ before ++ sep ++ after := by
  constructor
  · intro h before after heq
    induction s generalizing before with
    | nil =>
        have hsep : sep = [] := by simp_all
        simp [splitOnce, hsep] at h
    | cons c s ih =>
        cases hprefix : sep.isPrefixOf? (c :: s) with
        | some rest => simp [splitOnce, hprefix] at h
        | none =>
            simp only [splitOnce, hprefix, Option.map_eq_none_iff] at h
            cases before with
            | nil =>
                have hsome := List.isPrefixOf?_eq_some_iff_append_eq.mpr heq.symm
                rw [List.nil_append, hprefix] at hsome
                cases hsome
            | cons c' before =>
                simp only [List.cons_append, List.cons.injEq] at heq
                exact ih h before heq.2
  · intro hnone
    cases h : splitOnce sep s with
    | none => rfl
    | some parts => exact absurd (first_of_splitOnce h).eq (hnone parts.1 parts.2)

/-- A text is taken apart where the separator is for the first time. -/
theorem splitOnce_of_first (h : First sep before after s) :
    splitOnce sep s = some (before, after) := by
  cases hsplit : splitOnce sep s with
  | none => exact absurd h.eq (splitOnce_eq_none_iff.mp hsplit before after)
  | some parts =>
      have hfirst := first_of_splitOnce hsplit
      have hlength : parts.1.length = before.length :=
        Nat.le_antisymm (hfirst.first _ _ h.eq) (h.first _ _ hfirst.eq)
      have heq := h.eq.symm.trans hfirst.eq
      rw [List.append_assoc, List.append_assoc] at heq
      obtain ⟨hbefore, hafter⟩ := List.append_inj heq hlength.symm
      rw [hbefore, List.append_cancel_left hafter]

end Text

end Lib
