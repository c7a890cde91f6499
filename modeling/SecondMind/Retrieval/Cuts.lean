import SecondMind.Retrieval.Readings

/-!
# What a cut changes

The filter promises that an answer looks the same wherever the stream is cut, and that it only
names evidence that was given.  Both fail for the same texts: those with a soft bracket whose
innermost marker may be read or let out unread.

* `citationRun_uncut_iff` — the cuts of a text change nothing iff every soft marker is written as
  it is printed, is evidence and is named elsewhere;
* `citationRun_sound_iff` — what is let out is sound for every cut iff every soft marker names
  only evidence that is named elsewhere;
* `Marks` — the marks of a text that is put together.
-/

namespace SecondMind

/-! ## Runs of a text -/

/-- A run over a text is one of its readings. -/
theorem citationRun_reads (evidence : Finset Nat) (deltas : List (List Char)) :
    ∃ ns, Reading evidence deltas.flatten (citationRun evidence deltas).1 ns ∧
      (citationRun evidence deltas).2 = CitationFilter.note { evidence := evidence } ns := by
  obtain ⟨ns, hns, hr⟩ := CitationFilter.runFrom_reads { evidence := evidence } deltas
    fun before more _ heq => by simp at heq
  exact ⟨ns, hr, hns⟩

/-- And each of its readings is a run over it. -/
theorem exists_citationRun {evidence : Finset Nat} {text out : List Char} {ns : List Nat}
    (h : Reading evidence text out ns) :
    ∃ deltas : List (List Char), deltas.flatten = text ∧
      citationRun evidence deltas = (out, CitationFilter.note { evidence := evidence } ns) :=
  CitationFilter.exists_runFrom (f := { evidence := evidence }) rfl h

theorem mem_foldl_mention {used ns : List Nat} {n : Nat} :
    n ∈ ns.foldl mention used ↔ n ∈ used ∨ n ∈ ns := by
  induction ns generalizing used with
  | nil => simp
  | cons m ns ih =>
    rw [List.foldl_cons, ih, mention]
    split
    · rename_i hm
      constructor
      · rintro (h | h)
        · exact .inl h
        · exact .inr (List.mem_cons_of_mem _ h)
      · rintro (h | h)
        · exact .inl h
        · rcases List.mem_cons.1 h with rfl | h
          · exact .inl hm
          · exact .inr h
    · rw [List.mem_append, List.mem_singleton, List.mem_cons, or_assoc]

/-- The numbers that were named are those that were read and are evidence. -/
theorem mem_used_note {evidence : Finset Nat} {ns : List Nat} {n : Nat} :
    n ∈ (CitationFilter.note { evidence := evidence } ns).used ↔ n ∈ ns ∧ n ∈ evidence := by
  simp [CitationFilter.note, CitationFilter.read, mem_foldl_mention]

/-- How many numbers are no evidence. -/
def dropped (evidence : Finset Nat) (ns : List Nat) : Nat :=
  (CitationFilter.note { evidence := evidence } ns).stripped

theorem dropped_append (evidence : Finset Nat) (ns ms : List Nat) :
    dropped evidence (ns ++ ms) = dropped evidence ns + dropped evidence ms := by
  rw [dropped, CitationFilter.note_append]
  simp [dropped, CitationFilter.note, CitationFilter.read]

theorem dropped_of_mem {evidence : Finset Nat} {n : Nat} (h : n ∈ evidence) :
    dropped evidence [n] = 0 := by
  simp [dropped, CitationFilter.note, CitationFilter.read, h]

/-! ## The reading that takes no soft marker -/

section

variable {evidence : Finset Nat}

namespace Bracket

instance (b : Bracket) : Decidable b.Soft := inferInstanceAs (Decidable (_ ∨ _))

/-- The numbers of a bracket that every run reads. -/
def firm (b : Bracket) : List Nat := if b.Soft then [] else b.numbers.getD []

/-- What is let out for a bracket if a soft one is not read. -/
def settled (evidence : Finset Nat) (b : Bracket) : List Char :=
  if b.Soft ∨ b.numbers = none then b.raw
  else b.before ++ b.outer ++ printed (b.firm.filter (· ∈ evidence))

theorem settled_reads (b : Bracket) : b.Reads evidence (b.settled evidence) b.firm := by
  unfold settled firm
  by_cases hsoft : b.Soft
  · rw [if_pos (.inl hsoft), if_pos hsoft]
    exact .raw (.inr hsoft)
  · cases hnumbers : b.numbers with
    | none =>
      rw [if_pos (.inr rfl), if_neg hsoft]
      exact .raw (.inl hnumbers)
    | some ns =>
      rw [if_neg (by simp [hsoft]), if_neg hsoft]
      exact .marker hnumbers

end Bracket

theorem reads_settled (bs : List Bracket) (tail : List Char) :
    Reads evidence bs tail (bs.flatMap (·.settled evidence) ++ tail) (bs.flatMap Bracket.firm) := by
  induction bs with
  | nil => exact .tail tail
  | cons b bs ih =>
    rw [List.flatMap_cons, List.flatMap_cons, List.append_assoc]
    exact .cons b.settled_reads ih

/-- Any one bracket may be read in its own way. -/
theorem reads_insert {b : Bracket} {o : List Char} {m : List Nat} (h : b.Reads evidence o m)
    (bs bs' : List Bracket) (tail : List Char) :
    Reads evidence (bs ++ b :: bs') tail
      (bs.flatMap (·.settled evidence) ++ (o ++ (bs'.flatMap (·.settled evidence) ++ tail)))
      (bs.flatMap Bracket.firm ++ (m ++ bs'.flatMap Bracket.firm)) := by
  induction bs with
  | nil =>
    simp only [List.flatMap_nil, List.nil_append]
    exact .cons h (reads_settled bs' tail)
  | cons c bs ih =>
    simp only [List.cons_append, List.flatMap_cons, List.append_assoc]
    exact .cons c.settled_reads ih

/-- A number that some marker of the text names that is not soft. -/
def NamedFirmly (text : List Char) (n : Nat) : Prop := n ∈ (brackets text).1.flatMap Bracket.firm

/-! ## Cuts that change nothing -/

/-- The same output, the same numbers named and as many dropped. -/
def SameAnswer (x y : List Char × CitationFilter) : Prop :=
  x.1 = y.1 ∧ (∀ n, n ∈ x.2.used ↔ n ∈ y.2.used) ∧ x.2.stripped = y.2.stripped

/-- Every soft marker is one number, written as it is printed, that is evidence and that a marker
names that is not soft. -/
def Uncut (evidence : Finset Nat) (text : List Char) : Prop :=
  ∀ b ∈ (brackets text).1, b.Soft → ∀ ns, b.numbers = some ns →
    ∃ n ∈ evidence, ns = [n] ∧ b.inner = strOf n ∧ NamedFirmly text n

/-- Every soft marker names only evidence that a marker names that is not soft. -/
def Vouched (evidence : Finset Nat) (text : List Char) : Prop :=
  ∀ b ∈ (brackets text).1, b.Soft → ∀ ns, b.numbers = some ns →
    ∀ n ∈ ns, n ∈ evidence ∧ NamedFirmly text n

theorem Bracket.numbers_of_firm {b : Bracket} {ns : List Nat} (hsoft : ¬ b.Soft)
    (h : b.numbers = some ns) : b.firm = ns := by
  rw [firm, if_neg hsoft, h, Option.getD_some]

theorem Bracket.notClose_inner (b : Bracket) : ']' ∉ b.inner := fun h => by
  have hmem : ']' ∈ '[' :: b.body := by
    rw [← b.outer_append_inner]
    simp [h]
  simp [b.notClose] at hmem

/-- A soft marker that is written as it is printed looks the same read and unread. -/
theorem Bracket.raw_of_inner {b : Bracket} {n : Nat} (h : b.inner = strOf n) :
    b.raw = b.before ++ b.outer ++ printed [n] := by
  rw [b.raw_eq, h]
  simp [printed]

/-- Every reading reads the markers that are not soft. -/
theorem Reads.firm {bs : List Bracket} {tail out : List Char} {ns : List Nat}
    (h : Reads evidence bs tail out ns) : ∀ n ∈ bs.flatMap Bracket.firm, n ∈ ns := by
  induction h with
  | tail tail => exact fun n hn => hn
  | @cons b bs tail out out' m ns' hb hrest ih =>
    intro n hn
    rw [List.flatMap_cons, List.mem_append] at hn
    rcases hn with hn | hn
    · refine List.mem_append_left _ ?_
      by_cases hs : b.Soft
      · rw [Bracket.firm, if_pos hs] at hn
        exact absurd hn List.not_mem_nil
      · cases hb with
        | raw h =>
          rw [Bracket.firm, if_neg hs, h.resolve_right hs] at hn
          exact hn
        | marker h => exact Bracket.numbers_of_firm hs h ▸ hn
    · exact List.mem_append_right _ (ih n hn)

/-- A reading differs from the settled one only in the soft markers that it read. -/
theorem Reads.settled {bs : List Bracket} {tail out : List Char} {ns : List Nat}
    (h : Reads evidence bs tail out ns)
    (hsoft : ∀ b ∈ bs, b.Soft → ∀ ms, b.numbers = some ms →
      ∃ n ∈ evidence, ms = [n] ∧ b.inner = strOf n) :
    out = bs.flatMap (·.settled evidence) ++ tail ∧
      dropped evidence ns = dropped evidence (bs.flatMap Bracket.firm) ∧
      ∀ n ∈ ns, n ∈ bs.flatMap Bracket.firm ∨
        ∃ b ∈ bs, b.Soft ∧ b.numbers = some [n] := by
  induction h with
  | tail tail => simp
  | @cons b bs tail out out' m ns' hb hrest ih =>
    obtain ⟨hout, hdropped, hnamed⟩ := ih fun c hc => hsoft c (List.mem_cons_of_mem _ hc)
    simp only [List.flatMap_cons, dropped_append, List.mem_append, List.append_assoc, hdropped]
    have key : out = b.settled evidence ∧ dropped evidence m = dropped evidence b.firm ∧
        ∀ n ∈ m, n ∈ b.firm ∨ b.Soft ∧ b.numbers = some [n] := by
      cases hb with
      | raw h =>
        by_cases hs : b.Soft
        · simp [Bracket.settled, Bracket.firm, hs]
        · have hnone := h.resolve_right hs
          simp [Bracket.settled, Bracket.firm, hs, hnone]
      | marker h =>
        by_cases hs : b.Soft
        · obtain ⟨n, hn, rfl, hinner⟩ := hsoft b List.mem_cons_self hs m h
          refine ⟨?_, ?_, ?_⟩
          · rw [Bracket.settled, if_pos (.inl hs), Bracket.raw_of_inner hinner]
            simp [hn]
          · rw [dropped_of_mem hn, Bracket.firm, if_pos hs]
            rfl
          · intro n' hn'
            rw [List.mem_singleton] at hn'
            exact .inr ⟨hs, hn' ▸ h⟩
        · have hfirm := Bracket.numbers_of_firm hs h
          simp [Bracket.settled, hs, h, hfirm]
    obtain ⟨houtb, hdroppedb, hnamedb⟩ := key
    refine ⟨by rw [houtb, hout], by rw [hdroppedb], ?_⟩
    rintro n (h | h)
    · rcases hnamedb n h with h | ⟨hs, h⟩
      · exact .inl (.inl h)
      · exact .inr ⟨b, List.mem_cons_self, hs, h⟩
    · rcases hnamed n h with h | ⟨c, hc, hs, h⟩
      · exact .inl (.inr h)
      · exact .inr ⟨c, List.mem_cons_of_mem _ hc, hs, h⟩

theorem notMem_strOf {n : Nat} {c : Char} (hc : isDigit c = false) : c ∉ strOf n := fun h => by
  rw [isDigit_strOf h] at hc
  exact (nomatch hc)

theorem strOf_notOpen (n : Nat) : '[' ∉ strOf n := notMem_strOf (by decide)

theorem strOf_notClose (n : Nat) : ']' ∉ strOf n := notMem_strOf (by decide)

/-- One bracket that is printed is one number. -/
theorem printed_eq_bracket {ns : List Nat} {y : List Char} (hy : ']' ∉ y)
    (h : printed ns = '[' :: (y ++ [']'])) : ∃ n, ns = [n] ∧ y = strOf n := by
  cases ns with
  | nil => exact (nomatch h)
  | cons n ns =>
    have heq : strOf n ++ ']' :: printed ns = y ++ [']'] := by
      have hprinted : printed (n :: ns) = '[' :: (strOf n ++ ']' :: printed ns) := by
        simp [printed]
      rw [hprinted] at h
      exact (List.cons.inj h).2
    obtain ⟨hn, hrest⟩ := cut_inj (strOf_notClose n) hy heq
    cases ns with
    | nil => exact ⟨n, rfl, hn.symm⟩
    | cons m ns => exact (nomatch hrest)

theorem eq_singleton_of_dropped {ns : List Nat} {n : Nat} (hgood : ns.filter (· ∈ evidence) = [n])
    (hdropped : dropped evidence ns = 0) : ns = [n] := by
  have hle : ns.length ≤ 1 := by
    simp only [dropped, CitationFilter.note, CitationFilter.read, hgood, List.length_singleton,
      Nat.zero_add] at hdropped
    omega
  have hmem : n ∈ ns := List.mem_of_mem_filter (p := (· ∈ evidence)) (by rw [hgood]; simp)
  cases ns with
  | nil => exact absurd hmem List.not_mem_nil
  | cons m ns =>
    have hnil : ns = [] := List.eq_nil_of_length_eq_zero (by simpa using hle)
    rw [hnil, List.mem_singleton] at hmem
    rw [hnil, hmem]

theorem SameAnswer.symm {x y : List Char × CitationFilter} (h : SameAnswer x y) :
    SameAnswer y x := ⟨h.1.symm, fun n => (h.2.1 n).symm, h.2.2.symm⟩

theorem SameAnswer.trans {x y z : List Char × CitationFilter} (h : SameAnswer x y)
    (h' : SameAnswer y z) : SameAnswer x z :=
  ⟨h.1.trans h'.1, fun n => (h.2.1 n).trans (h'.2.1 n), h.2.2.trans h'.2.2⟩

/-- If the cuts change nothing, all readings of the text are the same answer. -/
theorem sameAnswer_of_readings {text out out' : List Char} {ns ns' : List Nat}
    (h : ∀ deltas : List (List Char), deltas.flatten = text →
      SameAnswer (citationRun evidence deltas) (citationRun evidence [text]))
    (hr : Reading evidence text out ns) (hr' : Reading evidence text out' ns') :
    out = out' ∧ (∀ n ∈ evidence, n ∈ ns ↔ n ∈ ns') ∧ dropped evidence ns = dropped evidence ns' := by
  obtain ⟨deltas, hdeltas, hrun⟩ := exists_citationRun hr
  obtain ⟨deltas', hdeltas', hrun'⟩ := exists_citationRun hr'
  obtain ⟨hout, hused, hstripped⟩ := (h deltas hdeltas).trans (h deltas' hdeltas').symm
  rw [hrun, hrun'] at hout hused hstripped
  refine ⟨hout, fun n hn => ?_, hstripped⟩
  have hn' := hused n
  rw [mem_used_note, mem_used_note] at hn'
  exact ⟨fun hm => (hn'.1 ⟨hm, hn⟩).1, fun hm => (hn'.2 ⟨hm, hn⟩).1⟩

/-- **The cuts of a text change nothing** iff each soft marker is one number, written as it is
printed, that is evidence and named elsewhere. -/
theorem citationRun_uncut_iff (evidence : Finset Nat) (text : List Char) :
    (∀ deltas : List (List Char), deltas.flatten = text →
      SameAnswer (citationRun evidence deltas) (citationRun evidence [text])) ↔
      Uncut evidence text := by
  constructor
  · intro h b hb hsoft ns hnumbers
    obtain ⟨bs, bs', hbs⟩ := List.append_of_mem hb
    -- the two readings that differ only in this bracket
    have hraw := reads_insert (.raw (.inr hsoft) : b.Reads evidence _ _) bs bs' (brackets text).2
    have hmarker := reads_insert (.marker hnumbers : b.Reads evidence _ _) bs bs' (brackets text).2
    rw [← hbs] at hraw hmarker
    obtain ⟨hout, hused, hdropped⟩ := sameAnswer_of_readings h hmarker hraw
    have hbracket : printed (ns.filter (· ∈ evidence)) = '[' :: (b.inner ++ [']']) := by
      have hsame := List.append_cancel_right (List.append_cancel_left hout)
      rw [b.raw_eq] at hsame
      exact List.append_cancel_left hsame
    obtain ⟨n, hgood, hinner⟩ := printed_eq_bracket b.notClose_inner hbracket
    have hmem : n ∈ ns ∧ n ∈ evidence := by
      simpa using (hgood ▸ List.mem_singleton_self n : n ∈ ns.filter (· ∈ evidence))
    have hnone : dropped evidence ns = 0 := by
      simp only [dropped_append, List.nil_append] at hdropped
      omega
    refine ⟨n, hmem.2, eq_singleton_of_dropped hgood hnone, hinner, ?_⟩
    have hfirm : b.firm = [] := if_pos hsoft
    have hn := (hused n hmem.2).1 (by simp [hmem.1])
    rw [NamedFirmly, hbs, List.flatMap_append, List.flatMap_cons, hfirm]
    exact hn
  · intro h deltas hdeltas
    have hsettled : ∀ {out ns}, Reading evidence text out ns →
        out = (brackets text).1.flatMap (·.settled evidence) ++ (brackets text).2 ∧
          (∀ n ∈ evidence, n ∈ ns ↔ NamedFirmly text n) ∧
          dropped evidence ns = dropped evidence ((brackets text).1.flatMap Bracket.firm) := by
      intro out ns hr
      obtain ⟨hout, hdropped, hnamed⟩ := hr.settled fun b hb hsoft ms hms => by
        obtain ⟨n, hn, hsingle, hinner, -⟩ := h b hb hsoft ms hms
        exact ⟨n, hn, hsingle, hinner⟩
      refine ⟨hout, fun n _ => ⟨fun hn => ?_, hr.firm n⟩, hdropped⟩
      rcases hnamed n hn with hn | ⟨b, hb, hsoft, hnumbers⟩
      · exact hn
      · obtain ⟨n', -, hsingle, -, hn'⟩ := h b hb hsoft [n] hnumbers
        cases hsingle
        exact hn'
    obtain ⟨ns, hr, hx⟩ := citationRun_reads evidence deltas
    obtain ⟨ns', hr', hx'⟩ := citationRun_reads evidence [text]
    rw [hdeltas] at hr
    rw [List.flatten_singleton] at hr'
    obtain ⟨hout, hused, hdropped⟩ := hsettled hr
    obtain ⟨hout', hused', hdropped'⟩ := hsettled hr'
    refine ⟨hout.trans hout'.symm, fun n => ?_, ?_⟩
    · rw [hx, hx', mem_used_note, mem_used_note]
      exact ⟨fun hn => ⟨(hused' n hn.2).2 ((hused n hn.2).1 hn.1), hn.2⟩,
        fun hn => ⟨(hused n hn.2).2 ((hused' n hn.2).1 hn.1), hn.2⟩⟩
    · rw [hx, hx']
      exact hdropped.trans hdropped'.symm

end

/-- A cut after the first word of a bracket lets a marker be read that is let out unread
otherwise. -/
theorem cut_reads_marker :
    ¬ SameAnswer (citationRun {1} ["[note ".toList, "[9]".toList])
      (citationRun {1} ["[note [9]".toList]) := by
  intro h
  have hout : (citationRun {1} ["[note ".toList, "[9]".toList]).1 ≠
      (citationRun {1} ["[note [9]".toList]).1 := by decide +kernel
  exact hout h.1

/-! ## The marks of what is let out -/

/-- A bracket of the text with no other bracket inside. -/
def Marks (text y : List Char) : Prop :=
  '[' ∉ y ∧ ']' ∉ y ∧ ∃ x z, text = x ++ '[' :: (y ++ ']' :: z)

theorem marks_of_notOpen {text y : List Char} (h : '[' ∉ text) : ¬ Marks text y := by
  rintro ⟨-, -, x, z, rfl⟩
  simp at h

theorem marks_of_neverCloses {text y : List Char} (h : NeverCloses text) : ¬ Marks text y := by
  rintro ⟨-, -, x, z, heq⟩
  by_cases hx : '[' ∈ x
  · obtain ⟨p, q, rfl, hp⟩ := List.eq_append_cons_of_mem hx
    exact h p (q ++ '[' :: (y ++ ']' :: z)) hp (by rw [heq]; simp) (by simp)
  · exact h x _ hx heq (by simp)

/-- A mark of two texts that are put together is a mark of one of them, or it is torn. -/
theorem marks_append {a b y : List Char} (h : Marks (a ++ b) y) :
    Marks a y ∨ Marks b y ∨
      ∃ y₁ y₂, y = y₁ ++ y₂ ∧ (∃ x, a = x ++ '[' :: y₁) ∧ ∃ z, b = y₂ ++ ']' :: z := by
  obtain ⟨hopen, hclose, x, z, heq⟩ := h
  rcases List.append_eq_append_iff.1 heq with ⟨x', rfl, hb⟩ | ⟨b', rfl, hb⟩
  · exact .inr (.inl ⟨hopen, hclose, x', z, hb⟩)
  · rcases List.append_eq_cons_iff.1 hb.symm with ⟨rfl, hb'⟩ | ⟨b'', rfl, hb'⟩
    · exact .inr (.inl ⟨hopen, hclose, [], z, hb'⟩)
    · rcases List.append_eq_append_iff.1 hb'.symm with ⟨y', rfl, hz⟩ | ⟨w, rfl, hz⟩
      · exact .inr (.inr ⟨b'', y', rfl, ⟨x, rfl⟩, z, hz⟩)
      · rcases List.append_eq_cons_iff.1 hz.symm with ⟨rfl, hz'⟩ | ⟨w', rfl, -⟩
        · exact .inr (.inr ⟨y, [], by simp, ⟨x, by simp⟩, z, hz'⟩)
        · exact .inl ⟨hopen, hclose, x, w', rfl⟩

/-- A text that ends with a closed bracket tears no mark. -/
theorem not_torn {p x y : List Char} (h : p ++ [']'] = x ++ '[' :: y) : ']' ∈ y := by
  rcases List.eq_nil_or_concat y with rfl | ⟨y', c, rfl⟩
  · have hlast := (List.append_inj' h rfl).2
    exact absurd hlast (by decide)
  · have heq : p ++ [']'] = (x ++ '[' :: y') ++ [c] := by simpa using h
    have hlast := (List.append_inj' heq rfl).2
    rw [← (List.cons.inj hlast).1]
    simp

theorem marks_bracket {i y : List Char} (hi : '[' ∉ i ∧ ']' ∉ i)
    (h : Marks ('[' :: (i ++ [']'])) y) : y = i := by
  obtain ⟨-, hclose, x, z, heq⟩ := h
  rcases List.append_eq_cons_iff.1 heq.symm with ⟨rfl, heq'⟩ | ⟨x', rfl, heq'⟩
  · exact (cut_inj hi.2 hclose (List.cons.inj heq').2.symm).1.symm
  · have hmem : '[' ∈ i ++ [']'] := by
      rw [heq']
      simp
    simp [hi.1] at hmem

/-- The marks of what is printed are the numbers. -/
theorem marks_printed {ns : List Nat} {y : List Char} (h : Marks (printed ns) y) :
    ∃ n ∈ ns, y = strOf n := by
  induction ns with
  | nil => exact absurd h (marks_of_notOpen List.not_mem_nil)
  | cons n ns ih =>
    have hprinted : printed (n :: ns) = '[' :: (strOf n ++ [']']) ++ printed ns := rfl
    rw [hprinted] at h
    rcases marks_append h with h | h' | ⟨y₁, y₂, rfl, ⟨x, hx⟩, -⟩
    · exact ⟨n, List.mem_cons_self, marks_bracket ⟨strOf_notOpen n, strOf_notClose n⟩ h⟩
    · obtain ⟨m, hm, hy⟩ := ih h'
      exact ⟨m, List.mem_cons_of_mem _ hm, hy⟩
    · exact absurd (List.mem_append_left _ (not_torn (p := '[' :: strOf n) hx)) h.2.1

/-- What begins with a bracket brings its marks with it. -/
theorem marks_append_open {a b y : List Char} (h : Marks (a ++ b) y)
    (hb : b = [] ∨ ∃ b', b = '[' :: b') : Marks a y ∨ Marks b y := by
  rcases marks_append h with h' | h' | ⟨y₁, y₂, rfl, -, z, hz⟩
  · exact .inl h'
  · exact .inr h'
  · rcases hb with rfl | ⟨b', rfl⟩
    · simp at hz
    · rcases List.append_eq_cons_iff.1 hz.symm with ⟨-, hz⟩ | ⟨y', rfl, -⟩
      · exact absurd (List.cons.inj hz).1 (by decide)
      · exact absurd (by simp) h.1

/-- There is no mark before the innermost bracket. -/
theorem Bracket.not_marks_outer (b : Bracket) {y : List Char} : ¬ Marks (b.before ++ b.outer) y := by
  intro h
  have hclose : ']' ∉ b.outer := fun hm => by
    have hmem : ']' ∈ '[' :: b.body := by
      rw [← b.outer_append_inner]
      simp [hm]
    simp [b.notClose] at hmem
  rcases marks_append h with h' | ⟨-, -, x, z, heq⟩ | ⟨y₁, y₂, -, ⟨x, hx⟩, -⟩
  · exact marks_of_notOpen b.notOpen h'
  · exact hclose (by rw [heq]; simp)
  · exact b.notOpen (by rw [hx]; simp)

theorem markerNumbers_notClose {y : List Char} {ns : List Nat} (h : markerNumbers y = some ns) :
    ']' ∉ y := fun hm => by
  have hchar := markerChar_of_markerNumbers h hm
  rw [not_markerChar_close] at hchar
  exact (nomatch hchar)

theorem splitComma_of_notMem {part y : List Char} (h : ',' ∉ y) :
    splitComma part y = [part.reverse ++ y] := by
  induction y generalizing part with
  | nil => simp [splitComma]
  | cons c y ih =>
    rw [List.mem_cons, not_or] at h
    rw [splitComma, if_neg (Ne.symm h.1), ih h.2]
    simp

/-- A number that is printed is read back. -/
theorem markerNumbers_strOf (n : Nat) : markerNumbers (strOf n) = some [n] := by
  have hspace : (strOf n).dropWhile isSpace = strOf n := by
    refine List.dropWhile_eq_self_iff.2 fun hlen => ?_
    rw [not_isSpace_strOf (List.getElem_mem hlen)]
    exact Bool.false_ne_true
  have hdigits : (strOf n).takeWhile isDigit = strOf n :=
    List.takeWhile_eq_self_iff.2 fun c hc => isDigit_strOf hc
  have hrest : (strOf n).dropWhile isDigit = [] :=
    List.dropWhile_eq_nil_iff.2 fun c hc => isDigit_strOf hc
  have hnumber : markerNumber (strOf n) = some n := by
    simp [markerNumber, hspace, hdigits, hrest, strOf_ne_nil, intOf_strOf]
  rw [markerNumbers, splitComma_of_notMem (notMem_strOf (by decide)), List.reverse_nil,
    List.nil_append, List.mapM_cons, hnumber]
  rfl

theorem splitComma_ne_nil (part y : List Char) : splitComma part y ≠ [] := by
  induction y generalizing part with
  | nil => exact List.cons_ne_nil _ _
  | cons c y ih =>
    rw [splitComma]
    split
    · exact List.cons_ne_nil _ _
    · exact ih _

/-- A marker names some number. -/
theorem markerNumbers_ne_nil {y : List Char} {ns : List Nat} (h : markerNumbers y = some ns) :
    ns ≠ [] := by
  obtain ⟨piece, hpiece⟩ := List.exists_mem_of_ne_nil _ (splitComma_ne_nil [] y)
  obtain ⟨n, hn, -⟩ := exists_of_mapM_eq_some h hpiece
  exact List.ne_nil_of_mem hn

/-! ## Sound answers -/

/-- Every number of every marker that is let out is evidence, and was named. -/
def Sound (evidence : Finset Nat) (x : List Char × CitationFilter) : Prop :=
  ∀ before y after ns, x.1 = before ++ '[' :: (y ++ ']' :: after) → markerNumbers y = some ns →
    ∀ n ∈ ns, n ∈ evidence ∧ n ∈ x.2.used

section

variable {evidence : Finset Nat}

/-- The markers of a reading of one bracket name what was read, or what is vouched for. -/
theorem Bracket.Reads.marks {b : Bracket} {out : List Char} {m : List Nat} {P : Nat → Prop}
    (h : b.Reads evidence out m)
    (hsoft : b.Soft → ∀ ns, b.numbers = some ns → ∀ n ∈ ns, n ∈ evidence ∧ P n)
    {y : List Char} {ns : List Nat} (hy : Marks out y) (hns : markerNumbers y = some ns) :
    ∀ n ∈ ns, n ∈ evidence ∧ (n ∈ m ∨ P n) := by
  intro n hn
  cases h with
  | raw h =>
    rw [b.raw_eq] at hy
    have hmark := (marks_append_open hy (.inr ⟨_, rfl⟩)).resolve_left b.not_marks_outer
    obtain rfl := marks_bracket ⟨b.notMem_inner, b.notClose_inner⟩ hmark
    rcases h with hnone | hs
    · rw [Bracket.numbers, hns] at hnone
      cases hnone
    · exact ⟨(hsoft hs ns hns n hn).1, .inr (hsoft hs ns hns n hn).2⟩
  | marker h =>
    have hopen : printed (m.filter (· ∈ evidence)) = [] ∨
        ∃ b', printed (m.filter (· ∈ evidence)) = '[' :: b' := by
      cases m.filter (· ∈ evidence) with
      | nil => exact .inl rfl
      | cons n' ns' => exact .inr ⟨_, rfl⟩
    have hmark := (marks_append_open hy hopen).resolve_left b.not_marks_outer
    obtain ⟨n', hn', rfl⟩ := marks_printed hmark
    rw [markerNumbers_strOf] at hns
    cases hns
    rw [List.mem_singleton] at hn
    subst hn
    exact ⟨by simpa using (List.mem_filter.1 hn').2, .inl (List.mem_filter.1 hn').1⟩

/-- No reading of a bracket leaves one open, if a soft marker prints something. -/
theorem Bracket.Reads.not_torn {b : Bracket} {out : List Char} {m : List Nat}
    (h : b.Reads evidence out m)
    (hsoft : b.Soft → ∀ ns, b.numbers = some ns → ∀ n ∈ ns, n ∈ evidence)
    {x y : List Char} (hx : out = x ++ '[' :: y) : ']' ∈ y := by
  cases h with
  | raw h =>
    refine SecondMind.not_torn (p := b.before ++ '[' :: b.body) (x := x) ?_
    rw [← hx, Bracket.raw]
    simp
  | marker h =>
    rcases List.eq_nil_or_concat (m.filter (· ∈ evidence)) with hnil | ⟨good, n, hgood⟩
    · have hs : ¬ b.Soft := fun hs => by
        obtain ⟨n, hn⟩ := List.exists_mem_of_ne_nil _ (markerNumbers_ne_nil h)
        have hmem : n ∈ m.filter (· ∈ evidence) :=
          List.mem_filter.2 ⟨hn, decide_eq_true (hsoft hs m h n hn)⟩
        rw [hnil] at hmem
        exact List.not_mem_nil hmem
      have houter : b.outer = [] := Decidable.not_not.1 (not_or.1 hs).1
      rw [hnil, houter] at hx
      refine absurd ?_ b.notOpen
      have hout : b.before = x ++ '[' :: y := by simpa [printed] using hx
      rw [hout]
      simp
    · refine SecondMind.not_torn
        (p := b.before ++ b.outer ++ printed good ++ '[' :: strOf n) (x := x) ?_
      rw [← hx, hgood]
      simp [printed]

theorem Reads.marks {bs : List Bracket} {tail out : List Char} {ns : List Nat} {P : Nat → Prop}
    (h : Reads evidence bs tail out ns) (htail : NeverCloses tail)
    (hsoft : ∀ b ∈ bs, b.Soft → ∀ ms, b.numbers = some ms → ∀ n ∈ ms, n ∈ evidence ∧ P n)
    {y : List Char} {ms : List Nat} (hy : Marks out y) (hms : markerNumbers y = some ms) :
    ∀ n ∈ ms, n ∈ evidence ∧ (n ∈ ns ∨ P n) := by
  induction h with
  | tail tail => exact absurd hy (marks_of_neverCloses htail)
  | @cons b bs tail out out' m ns' hb hrest ih =>
    intro n hn
    have hsoft' := hsoft b List.mem_cons_self
    rcases marks_append hy with hmark | hmark | ⟨y₁, y₂, rfl, ⟨x, hx⟩, -⟩
    · obtain ⟨hev, hnamed⟩ := hb.marks hsoft' hmark hms n hn
      exact ⟨hev, hnamed.imp_left (List.mem_append_left _)⟩
    · obtain ⟨hev, hnamed⟩ :=
        ih htail (fun c hc => hsoft c (List.mem_cons_of_mem _ hc)) hmark n hn
      exact ⟨hev, hnamed.imp_left (List.mem_append_right _)⟩
    · have hclose := hb.not_torn (fun hs ms' hms' n' hn' => (hsoft' hs ms' hms' n' hn').1) hx
      exact absurd (List.mem_append_left _ hclose) hy.2.1

/-- The tail of a text has no bracket that closes. -/
theorem neverCloses_tail (text : List Char) : NeverCloses (brackets text).2 := by
  induction text using CitationFilter.text_induction with
  | never text h =>
    rw [brackets_of_neverCloses h]
    exact h
  | bracket b after ih =>
    rw [brackets_cons]
    exact ih

/-- **What is let out is sound** for every cut iff each soft marker names only evidence that is
named elsewhere. -/
theorem citationRun_sound_iff (evidence : Finset Nat) (text : List Char) :
    (∀ deltas : List (List Char), deltas.flatten = text →
      Sound evidence (citationRun evidence deltas)) ↔ Vouched evidence text := by
  constructor
  · intro h b hb hsoft ns hnumbers n hn
    obtain ⟨bs, bs', hbs⟩ := List.append_of_mem hb
    have hraw := reads_insert (.raw (.inr hsoft) : b.Reads evidence _ _) bs bs' (brackets text).2
    rw [← hbs, b.raw_eq] at hraw
    obtain ⟨deltas, hdeltas, hrun⟩ := exists_citationRun hraw
    have hsound := h deltas hdeltas
    rw [hrun] at hsound
    obtain ⟨hev, hused⟩ := hsound (bs.flatMap (·.settled evidence) ++ (b.before ++ b.outer))
      b.inner (bs'.flatMap (·.settled evidence) ++ (brackets text).2) ns (by simp) hnumbers n hn
    refine ⟨hev, ?_⟩
    have hfirm : b.firm = [] := if_pos hsoft
    rw [NamedFirmly, hbs, List.flatMap_append, List.flatMap_cons, hfirm]
    exact (mem_used_note.1 hused).1
  · intro h deltas hdeltas before y after ns hout hns n hn
    obtain ⟨ms, hr, hx⟩ := citationRun_reads evidence deltas
    rw [hdeltas] at hr
    have hy : Marks (citationRun evidence deltas).1 y :=
      ⟨Bracket.notMem_of_markerNumbers hns, markerNumbers_notClose hns, before, after, hout⟩
    obtain ⟨hev, hnamed⟩ := hr.marks (neverCloses_tail text) h hy hns n hn
    refine ⟨hev, ?_⟩
    rw [hx, mem_used_note]
    exact ⟨hnamed.elim id (hr.firm n), hev⟩

end

/-- A number in two brackets is let out, although it is no evidence. -/
theorem nested_marker_not_sound : ¬ Sound {1} (citationRun {1} ["[[9]]".toList]) := by
  intro h
  have hout : (citationRun {1} ["[[9]]".toList]).1 = ['['] ++ '[' :: (['9'] ++ ']' :: [']']) := by
    decide +kernel
  have hev := (h ['['] ['9'] [']'] [9] hout (by decide +kernel) 9 (by simp)).1
  exact absurd hev (by decide)

end SecondMind
