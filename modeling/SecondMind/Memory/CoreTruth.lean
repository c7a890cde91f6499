import SecondMind.Memory.CorePrompt

/-!
# What the core view says about itself

`render_core` names the items of the view beside the text, and cuts the text back to the budget
behind that.

* `tokens_le` — the lines that are kept cost at most the budget, or only the header is left;
* `core_truth` — the items that are named are the items that are listed exactly when the last of
  them is not cut off.
-/

namespace SecondMind

open Keyed

variable {lib : TextLib} {known : CoreEntities}

/-! ## The lines -/

/-- The lines before any is cut off. -/
def coreLines (lib : TextLib) (known : CoreEntities) (items intentions : List ItemRecord) :
    List CoreText :=
  let visible := byAge lib (items.filter fun item => inCoreView item.toItemContent)
  ⟨coreHeader, []⟩ :: (coreSections lib known visible intentions).flatMap fun part =>
    ⟨"### " ++ part.1, []⟩ ::
      (if part.2.isEmpty then [⟨"- (none yet)", []⟩] else part.2)

/-- The line is the item's own, or it is the block of a person that has the item's line. -/
def CoreText.Lists (lib : TextLib) (known : CoreEntities) (line : CoreText) (r : ItemRecord) :
    Prop :=
  line = quoted r ∨ ∃ id block, r ∈ block ∧ line = personBlock lib known block id

/-- The lines list an item with this id that is in view. -/
def ListsId (lib : TextLib) (known : CoreEntities) (items : List ItemRecord)
    (lines : List CoreText) (id : Uuid) : Prop :=
  ∃ r ∈ items, inCoreView r.toItemContent = true ∧ r.id = id ∧
    ∃ line ∈ lines, line.Lists lib known r

theorem CoreText.Lists.quotes {line : CoreText} {r : ItemRecord} (h : line.Lists lib known r) :
    r ∈ line.quotes := by
  rcases h with rfl | ⟨id, block, hr, rfl⟩
  · exact List.mem_singleton_self r
  · exact hr

theorem ListsId.mono {items : List ItemRecord} {lines lines' : List CoreText} {id : Uuid}
    (h : ListsId lib known items lines id) (hsub : lines ⊆ lines') :
    ListsId lib known items lines' id := by
  obtain ⟨r, hr, hview, hid, line, hline, hlists⟩ := h
  exact ⟨r, hr, hview, hid, line, hsub hline, hlists⟩

/-- Each item in view has its section. -/
theorem exists_section {visible intentions : List ItemRecord} {r : ItemRecord}
    (hr : r ∈ visible) : ∃ part ∈ coreSections lib known visible intentions,
      ∃ line ∈ part.2, line.Lists lib known r := by
  have hof : r ∈ visible.filter fun item => sectionOf known item = sectionOf known r :=
    List.mem_filter.2 ⟨hr, decide_eq_true rfl⟩
  have hown : ∀ s, sectionOf known r = s →
      quoted r ∈ (visible.filter fun item => sectionOf known item = s).map quoted := by
    rintro _ rfl
    exact List.mem_map_of_mem hof
  cases hs : sectionOf known r with
  | aboutMe => exact ⟨_, .head _, _, hown _ hs, .inl rfl⟩
  | person id =>
    have hid : id ∈ peopleOf known visible := by
      refine List.mem_eraseDups.2 (List.mem_filterMap.2 ⟨r, hr, ?_⟩)
      rw [hs]
    exact ⟨_, .tail _ (.head _), _, List.mem_map_of_mem hid, .inr ⟨id, _, hs ▸ hof, rfl⟩⟩
  | preferences => exact ⟨_, .tail _ (.tail _ (.head _)), _, hown _ hs, .inl rfl⟩
  | goals =>
    exact ⟨_, .tail _ (.tail _ (.tail _ (.head _))), _, List.mem_append_left _ (hown _ hs),
      .inl rfl⟩
  | patterns =>
    exact ⟨_, .tail _ (.tail _ (.tail _ (.tail _ (.tail _ (.head _))))), _, hown _ hs, .inl rfl⟩
  | rules =>
    exact ⟨_, .tail _ (.tail _ (.tail _ (.tail _ (.tail _ (.tail _ (.head _)))))), _, hown _ hs,
      .inl rfl⟩

/-- **Before any line is cut off**, every item in view is listed. -/
theorem listsId_coreLines {items intentions : List ItemRecord} {r : ItemRecord} (hr : r ∈ items)
    (hview : inCoreView r.toItemContent = true) :
    ListsId lib known items (coreLines lib known items intentions) r.id := by
  have hvisible : r ∈ byAge lib (items.filter fun item => inCoreView item.toItemContent) :=
    mem_byAge.2 (List.mem_filter.2 ⟨hr, hview⟩)
  obtain ⟨part, hpart, line, hline, hlists⟩ := exists_section hvisible
  refine ⟨r, hr, hview, rfl, line, ?_, hlists⟩
  have hne : part.2.isEmpty = false := List.isEmpty_eq_false_iff.2 (List.ne_nil_of_mem hline)
  refine List.mem_cons_of_mem _ (List.mem_flatMap.2 ⟨part, hpart, List.mem_cons_of_mem _ ?_⟩)
  rw [hne]
  exact hline

/-! ## Cutting -/

/-- What lines cost with the mark that more is in the archive. -/
def cutCost (lines : List CoreText) : Nat := estimateTokens (joinLines (lines ++ [moreLine]))

/-- **Lines are cut off** up to the longest part that is within the budget, or to the first line. -/
theorem trim_spec (budget : Nat) {lines : List CoreText} (hne : lines ≠ []) :
    ∃ kept, (trim budget (joinLines (lines.reverse ++ [moreLine])) lines).1 = kept ∧
      kept <:+ lines ∧ kept ≠ [] ∧ (cutCost kept.reverse ≤ budget ∨ kept.length = 1) ∧
      ∀ part, part <:+ lines → part ≠ [] → cutCost part.reverse ≤ budget → part <:+ kept := by
  induction lines with
  | nil => exact absurd rfl hne
  | cons line lines ih =>
    cases lines with
    | nil =>
      refine ⟨[line], rfl, List.suffix_refl _, List.cons_ne_nil _ _, .inr rfl, ?_⟩
      exact fun part hpart _ _ => hpart
    | cons next lines =>
      rw [trim]
      split
      · rename_i hover
        obtain ⟨kept, hkept, hsuffix, hnil, hcost, hlongest⟩ := ih (List.cons_ne_nil _ _)
        refine ⟨kept, hkept, hsuffix.trans (List.suffix_cons _ _), hnil, hcost, ?_⟩
        intro part hpart hpartne hfits
        rcases List.suffix_cons_iff.1 hpart with rfl | hpart
        · exact absurd hfits (Nat.not_le.2 hover)
        · exact hlongest part hpart hpartne hfits
      · rename_i hfits
        exact ⟨_, rfl, List.suffix_refl _, List.cons_ne_nil _ _, .inl (Nat.le_of_not_lt hfits),
          fun part hpart _ _ => hpart⟩

/-- The lines of a view: all of them within the budget, or those that are left and the mark. -/
inductive KeptLines (budget : Nat) (lines : List CoreText) : List CoreText → Prop
  | all (h : estimateTokens (joinLines lines) ≤ budget) : KeptLines budget lines lines
  | cut {kept : List CoreText} (hover : budget < estimateTokens (joinLines lines))
    (hfront : kept <+: lines) (hne : kept ≠ lines)
    (hcost : cutCost kept ≤ budget ∨ ∃ line, kept = [line])
    (hlongest : ∀ part, part <+: lines → part ≠ lines → part ≠ [] → cutCost part ≤ budget →
      part <+: kept) : KeptLines budget lines (kept ++ [moreLine])

theorem kept_renderCore (items intentions : List ItemRecord) (budget : Nat) :
    KeptLines budget (coreLines lib known items intentions)
      (renderCore lib known items intentions budget).lines := by
  obtain ⟨rest, hrest⟩ : ∃ rest, coreLines lib known items intentions =
      ⟨coreHeader, []⟩ :: ⟨"### About me", []⟩ :: rest := ⟨_, rfl⟩
  have hlines : (renderCore lib known items intentions budget).lines =
      (trim budget (joinLines (coreLines lib known items intentions))
        (coreLines lib known items intentions).reverse).1.reverse ++
      if (trim budget (joinLines (coreLines lib known items intentions))
        (coreLines lib known items intentions).reverse).2 then [moreLine] else [] := rfl
  rw [hlines]
  generalize coreLines lib known items intentions = lines at hrest
  obtain ⟨last, next, before, hreverse⟩ :
      ∃ last next before, lines.reverse = last :: next :: before := by
    match hrev : lines.reverse with
    | [] => simp_all
    | [line] =>
      have hlength := congrArg List.length hrev
      rw [hrest] at hlength
      simp at hlength
    | last :: next :: before => exact ⟨last, next, before, rfl⟩
  rw [hreverse, trim]
  split
  · rename_i hover
    obtain ⟨kept, hkept, hsuffix, hnil, hcost, hlongest⟩ :=
      trim_spec budget (List.cons_ne_nil next before)
    dsimp only
    rw [hkept, if_pos rfl]
    refine .cut hover ?_ ?_ (hcost.imp_right fun h => ?_) fun part hpart hne hnil hfits => ?_
    · rw [← List.reverse_suffix, List.reverse_reverse, hreverse]
      exact hsuffix.trans (List.suffix_cons last _)
    · rintro rfl
      have hlength := hsuffix.length_le
      rw [List.reverse_reverse] at hreverse
      rw [hreverse] at hlength
      simp at hlength
    · obtain ⟨line, rfl⟩ := List.length_eq_one_iff.1 h
      exact ⟨line, rfl⟩
    · have hpart : part.reverse <:+ last :: next :: before := hreverse ▸ List.reverse_suffix.2 hpart
      rcases List.suffix_cons_iff.1 hpart with hall | hpart
      · rw [← hreverse] at hall
        exact absurd (List.reverse_injective hall) hne
      · rw [← List.reverse_suffix, List.reverse_reverse]
        refine hlongest _ hpart (fun h => hnil (List.reverse_eq_nil_iff.1 h)) ?_
        rw [List.reverse_reverse]
        exact hfits
  · rename_i hfits
    have hall : (last :: next :: before).reverse = lines := by rw [← hreverse, List.reverse_reverse]
    dsimp only
    rw [hall, if_neg Bool.false_ne_true, List.append_nil]
    exact .all (Nat.le_of_not_lt hfits)

/-! ## The ids and the text -/

/-- The last item that is in view is listed within the budget: none is in view, or the whole text is
within it, or a first part of it that lists them all, with the mark. -/
def LastItemFits (lib : TextLib) (known : CoreEntities) (items intentions : List ItemRecord)
    (budget : Nat) : Prop :=
  (∀ r ∈ items, inCoreView r.toItemContent = false) ∨
    estimateTokens (joinLines (coreLines lib known items intentions)) ≤ budget ∨
    ∃ part, part <+: coreLines lib known items intentions ∧
      part ≠ coreLines lib known items intentions ∧ cutCost part ≤ budget ∧
      ∀ r ∈ items, inCoreView r.toItemContent = true → ListsId lib known items part r.id

/-- **The lines that are kept** cost at most the budget, or they are the header and the mark. -/
theorem tokens_le {items intentions : List ItemRecord} {budget : Nat} {lines : List CoreText}
    (h : KeptLines budget (coreLines lib known items intentions) lines) :
    estimateTokens (joinLines lines) ≤
      max budget (estimateTokens (coreHeader ++ "\n" ++ "- (more in the archive)")) := by
  cases h with
  | all hfits => exact hfits.trans (le_max_left _ _)
  | cut hover hfront hne hcost hlongest =>
    rcases hcost with hcost | ⟨line, rfl⟩
    · exact Nat.le_trans hcost (le_max_left _ _)
    · obtain ⟨rest, hrest⟩ := hfront
      have hheader : line = ⟨coreHeader, []⟩ := (List.cons.inj hrest).1
      rw [hheader]
      exact le_max_right _ _

/-- The mark lists nobody. -/
theorem listsId_append_more {items : List ItemRecord} {lines : List CoreText} {id : Uuid} :
    ListsId lib known items (lines ++ [moreLine]) id ↔ ListsId lib known items lines id := by
  refine ⟨?_, fun h => h.mono (List.subset_append_left _ _)⟩
  rintro ⟨r, hr, hview, hid, line, hline, hlists⟩
  rcases List.mem_append.1 hline with hline | hline
  · exact ⟨r, hr, hview, hid, line, hline, hlists⟩
  · have hquotes := hlists.quotes
    rw [List.mem_singleton.1 hline] at hquotes
    exact absurd hquotes List.not_mem_nil

/-- The first line lists nobody. -/
theorem not_listsId_header {items intentions : List ItemRecord} {line : CoreText} {id : Uuid}
    (h : [line] <+: coreLines lib known items intentions) :
    ¬ ListsId lib known items [line] id := by
  rintro ⟨r, -, -, -, line', hline, hlists⟩
  obtain ⟨rest, hrest⟩ := h
  have hheader : line = ⟨coreHeader, []⟩ := (List.cons.inj hrest).1
  have hquotes := hlists.quotes
  rw [List.mem_singleton.1 hline, hheader] at hquotes
  exact absurd hquotes List.not_mem_nil

/-- The ids are those of the items in view. -/
theorem mem_itemIds {items intentions : List ItemRecord} {budget : Nat} {id : Uuid} :
    id ∈ (renderCore lib known items intentions budget).itemIds ↔
      ∃ r ∈ items, inCoreView r.toItemContent = true ∧ r.id = id := by
  show id ∈ (byAge lib (items.filter fun item => inCoreView item.toItemContent)).map (·.id) ↔ _
  rw [List.mem_map]
  simp only [mem_byAge, List.mem_filter, and_assoc]

/-- The ids are those of the items that are listed when each item in view is. -/
theorem ids_iff {items intentions : List ItemRecord} {budget : Nat} {lines : List CoreText} :
    (∀ id, id ∈ (renderCore lib known items intentions budget).itemIds ↔
        ListsId lib known items lines id) ↔
      ∀ r ∈ items, inCoreView r.toItemContent = true → ListsId lib known items lines r.id := by
  simp only [mem_itemIds]
  constructor
  · exact fun h r hr hview => (h r.id).1 ⟨r, hr, hview, rfl⟩
  · refine fun h id => ⟨?_, ?_⟩
    · rintro ⟨r, hr, hview, rfl⟩
      exact h r hr hview
    · rintro ⟨r, hr, hview, hid, -⟩
      exact ⟨r, hr, hview, hid⟩

/-- **The lines that are kept** list every item in view exactly when the last of them fits. -/
theorem kept_lists_iff {items intentions : List ItemRecord} {budget : Nat} {lines : List CoreText}
    (h : KeptLines budget (coreLines lib known items intentions) lines) :
    (∀ r ∈ items, inCoreView r.toItemContent = true → ListsId lib known items lines r.id) ↔
      LastItemFits lib known items intentions budget := by
  have hwhole : ∀ r ∈ items, inCoreView r.toItemContent = true →
      ListsId lib known items (coreLines lib known items intentions) r.id :=
    fun r hr hview => listsId_coreLines hr hview
  cases h with
  | all hfits => exact iff_of_true hwhole (.inr (.inl hfits))
  | @cut kept hover hfront hne hcost hlongest =>
    simp only [listsId_append_more]
    constructor
    · intro hall
      rcases hcost with hcost | ⟨line, rfl⟩
      · exact .inr (.inr ⟨kept, hfront, hne, hcost, hall⟩)
      · left
        intro r hr
        by_contra hview
        exact not_listsId_header hfront (hall r hr (Bool.not_eq_false _ ▸ hview))
    · rintro (hnone | hfits | ⟨part, hpart, hne, hfits, hall⟩) r hr hview
      · exact absurd (hnone r hr) (by rw [hview]; decide)
      · exact absurd hfits (Nat.not_le.2 hover)
      · have hnil : part ≠ [] := by
          rintro rfl
          obtain ⟨_, _, _, _, line, hline, -⟩ := hall r hr hview
          exact absurd hline List.not_mem_nil
        exact (hall r hr hview).mono (hlongest part hpart hne hnil hfits).subset

/-- **What the core view says about itself**: its text is within the budget, or it is the header and
the mark; and the ids are those of the items whose line is in the text exactly when the last of them
fits. -/
theorem core_truth (items intentions : List ItemRecord) (budget : Nat) :
    let view := renderCore lib known items intentions budget
    (view.tokens = estimateTokens view.text ∧
      view.tokens ≤ max budget (estimateTokens (coreHeader ++ "\n" ++ "- (more in the archive)"))) ∧
    ((∀ id, id ∈ view.itemIds ↔ ListsId lib known items view.lines id) ↔
      LastItemFits lib known items intentions budget) := by
  have hkept : KeptLines budget (coreLines lib known items intentions)
      (renderCore lib known items intentions budget).lines :=
    kept_renderCore items intentions budget
  exact ⟨⟨rfl, tokens_le hkept⟩, ids_iff.trans (kept_lists_iff hkept)⟩

/-- A line is no longer than the text it is in. -/
theorem length_le_join {sep line : String} {lines : List String} (h : line ∈ lines) :
    line.length ≤ (join sep lines).length := by
  cases lines with
  | nil => exact absurd h List.not_mem_nil
  | cons first lines =>
    rw [length_join]
    rcases List.mem_cons.1 h with rfl | h
    · omega
    · have hsum := List.single_le_sum (fun _ _ => Nat.zero_le _) _
        (List.mem_map_of_mem (f := fun p : String => sep.length + p.length) h)
      omega

/-- A rule of four hundred letters. -/
def longRule : ItemRecord :=
  { kind := .rule, state := "active", text := String.ofList (List.replicate 400 'x'), title := "x"
    mentionedAt := 0, inCore := true, id := 1, createdAt := 0, updatedAt := 0
    createdByTurnId := 1, updatedByTurnId := 1 }

theorem length_longRule : (quoted longRule).text.length = 402 := by
  have htext : longRule.text = String.ofList (List.replicate 400 'x') := rfl
  have hletters : longRule.text.toList = List.replicate 400 'x' := by
    rw [htext, String.toList_ofList]
  have hwords : words longRule.text = [longRule.text] := by
    refine words_of_not_isSpace (fun c hc => ?_) (hletters ▸ List.cons_ne_nil _ _)
    rw [hletters] at hc
    rw [List.eq_of_mem_replicate hc]
    rfl
  have hlength : longRule.text.length = 400 := by
    rw [← String.length_toList, hletters, List.length_replicate]
  show ("- " ++ join " " (words longRule.text)).length = 402
  rw [hwords, join, String.length_append, hlength]
  rfl

/-- **A rule that is cut off** is named, though no line of the text is about an item. -/
theorem long_rule_named : ¬ ∀ id,
    id ∈ (renderCore plainText ⟨[], fun _ => []⟩ [longRule] [] 100).itemIds ↔
      ListsId plainText ⟨[], fun _ => []⟩ [longRule]
        (renderCore plainText ⟨[], fun _ => []⟩ [longRule] [] 100).lines id := by
  obtain ⟨plain, hplain, hlines⟩ : ∃ plain : List CoreText, (∀ line ∈ plain, line.quotes = []) ∧
      coreLines plainText ⟨[], fun _ => []⟩ [longRule] [] = plain ++ [quoted longRule] :=
    ⟨(coreLines plainText ⟨[], fun _ => []⟩ [longRule] []).dropLast, by decide, rfl⟩
  have hlong : 100 < estimateTokens (joinLines (plain ++ [quoted longRule])) := by
    have hle : (quoted longRule).text.length ≤ (joinLines (plain ++ [quoted longRule])).length :=
      length_le_join (List.mem_map_of_mem (by simp))
    rw [length_longRule] at hle
    unfold estimateTokens
    omega
  have hquotes : ∀ line ∈ (renderCore plainText ⟨[], fun _ => []⟩ [longRule] [] 100).lines,
      line.quotes = [] := by
    have hkept := @kept_renderCore plainText ⟨[], fun _ => []⟩ [longRule] [] 100
    rw [hlines] at hkept
    generalize (renderCore plainText ⟨[], fun _ => []⟩ [longRule] [] 100).lines = lines at hkept
    intro line hline
    cases hkept with
    | all hfits => exact absurd hfits (Nat.not_le.2 hlong)
    | cut hover hfront hne =>
      rcases List.mem_append.1 hline with hline | hline
      · rcases List.prefix_concat_iff.1 hfront with rfl | hfront
        · exact absurd rfl hne
        · exact hplain line (hfront.subset hline)
      · rw [List.mem_singleton.1 hline]
        rfl
  intro h
  obtain ⟨r, -, -, -, line, hline, hlists⟩ :=
    (h 1).1 (mem_itemIds.2 ⟨longRule, List.mem_singleton_self _, rfl, rfl⟩)
  have hlisted := hlists.quotes
  rw [hquotes line hline] at hlisted
  exact absurd hlisted List.not_mem_nil

end SecondMind
