import SecondMind.Links.Saver
import SecondMind.Links.UrlErrors
import SecondMind.Memory.Failures
import SecondMind.Regex.Language

/-!
# What becomes of the links of a message

`save` reads each URL before it asks whether the URL may be fetched.  What `urlsplit`, a port or an
address raises there is caught by nothing, and the whole turn is lost.

* `LinkSaver.Readable` — a URL that raises nothing;
* `Accounted` — each URL is a new resource, a refused one, or a duplicate;
* `LinkSaver.save_accounts_iff` — when every URL of a message is accounted for.
-/

namespace SecondMind
namespace Links

open Keyed Regex

/-! ## The URLs that are found -/

/-- White space, as letters. -/
def spaces : List Char :=
  [0x09, 0x0a, 0x0b, 0x0c, 0x0d, 0x1c, 0x1d, 0x1e, 0x1f, 0x20, 0x85, 0xa0, 0x1680, 0x2000, 0x2001,
    0x2002, 0x2003, 0x2004, 0x2005, 0x2006, 0x2007, 0x2008, 0x2009, 0x200a, 0x2028, 0x2029, 0x202f,
    0x205f, 0x3000].map Char.ofNat

theorem mem_spaces {c : Char} (h : isSpace c = true) : c ∈ spaces := by
  have hval : c.val ∈ spaces.map Char.val := of_decide_eq_true h
  obtain ⟨d, hd, heq⟩ := List.mem_map.1 hval
  exact Char.ext heq ▸ hd

/-- A test that no white space passes. -/
theorem not_isSpace_of {f : Char → Bool} (h : spaces.all (fun c => !f c) = true) {c : Char}
    (hc : f c = true) : isSpace c = false := by
  rw [Bool.eq_false_iff]
  intro hspace
  have hnot := List.all_eq_true.1 h c (mem_spaces hspace)
  rw [hc] at hnot
  exact nomatch hnot

/-- A text without white space. -/
theorem not_isSpace_of_all {cs : List Char} (h : cs.all (fun c => !isSpace c) = true) :
    ∀ c ∈ cs, isSpace c = false := by
  intro c hc
  simpa using List.all_eq_true.1 h c hc

theorem not_isSpace_of_urlPattern {w : List Char} (h : urlPattern.Lang w) :
    ∀ c ∈ w, isSpace c = false := by
  refine Pattern.lang_within ?_ h
  have hurl : ∀ c, urlChar c = true → isSpace c = false := by
    intro c hc
    simpa using (of_decide_eq_true hc).1
  have hstart : ∀ c, schemeStart c = true → isSpace c = false :=
    fun c => not_isSpace_of (by decide +kernel)
  have hscheme : ∀ c, schemeChar c = true → isSpace c = false :=
    fun c => not_isSpace_of (by decide +kernel)
  have hletter : ∀ c, decide (foldCase c = 'w') = true → isSpace c = false :=
    fun c => not_isSpace_of (f := fun c => decide (foldCase c = 'w')) (by decide +kernel)
  have hwww : (anyCase "www").Within fun c => isSpace c = false := ⟨hletter, hletter, hletter⟩
  exact ⟨trivial, ⟨⟨hstart, hscheme, Pattern.within_text (not_isSpace_of_all (by decide +kernel))⟩,
    hwww, Pattern.within_text (not_isSpace_of_all (by decide +kernel))⟩, hurl⟩

theorem mem_trimBack {url : List Char} {c : Char} (h : c ∈ trimBack url) : c ∈ url := by
  induction url with
  | nil => exact h
  | cons last url ih =>
    unfold trimBack at h
    split at h
    · exact List.mem_cons_of_mem _ (ih h)
    · exact h

theorem mem_trim {url : List Char} {c : Char} (h : c ∈ trim url) : c ∈ url := by
  rw [trim, List.mem_reverse] at h
  exact List.mem_reverse.1 (mem_trimBack h)

section

variable {lower : List Char → List Char} {text : List Char}

/-- What holds of the URLs that are found. -/
theorem extractUrls_spec (lower : List Char → List Char) (text : List Char) :
    (extractUrls lower text).Nodup ∧
      ∀ url ∈ extractUrls lower text, ∀ c ∈ url, isSpace c = false := by
  have hfold : ∀ (ms : List Match) (urls : List (List Char)),
      (∀ m ∈ ms, urlPattern.Lang m.taken) →
      (urls.Nodup ∧ ∀ url ∈ urls, ∀ c ∈ url, isSpace c = false) →
      let found := ms.foldl (fun urls m =>
        let url := foundUrl lower m.taken
        if url ≠ [] ∧ url ∉ urls then urls ++ [url] else urls) urls
      found.Nodup ∧ ∀ url ∈ found, ∀ c ∈ url, isSpace c = false := by
    intro ms
    induction ms with
    | nil => exact fun urls _ h => h
    | cons m ms ih =>
      intro urls hms h
      refine ih _ (fun m' hm' => hms m' (List.mem_cons_of_mem _ hm')) ?_
      have htaken := not_isSpace_of_urlPattern (hms m List.mem_cons_self)
      have hurl : ∀ c ∈ foundUrl lower m.taken, isSpace c = false := by
        intro c hc
        unfold foundUrl at hc
        dsimp only at hc
        split at hc
        · rcases List.mem_append.1 hc with hc | hc
          · exact @not_isSpace_of_all "https://".toList (by decide +kernel) c hc
          · exact htaken c (mem_trim hc)
        · exact htaken c (mem_trim hc)
      dsimp only
      split
      · rename_i hnew
        refine ⟨?_, fun url hmem => ?_⟩
        · refine List.nodup_append.2 ⟨h.1, List.nodup_singleton _, fun a ha b hb => ?_⟩
          rw [List.mem_singleton.1 hb]
          exact fun heq => hnew.2 (heq ▸ ha)
        · rcases List.mem_append.1 hmem with hmem | hmem
          · exact h.2 url hmem
          · rw [List.mem_singleton.1 hmem]
            exact hurl
      · exact h
  exact hfold _ _ (fun m hm => findAll_sound hm) ⟨List.nodup_nil, by simp⟩

/-- There is nothing to strip of a text without white space. -/
theorem strip_eq_self {url : List Char} (h : ∀ c ∈ url, isSpace c = false) : strip url = url := by
  have hdrop : ∀ cs : List Char, (∀ c ∈ cs, isSpace c = false) → cs.dropWhile isSpace = cs := by
    intro cs hcs
    cases cs with
    | nil => rfl
    | cons c cs => exact List.dropWhile_cons_of_neg (by simp [hcs c List.mem_cons_self])
  rw [strip, hdrop url h, hdrop url.reverse fun c hc => h c (List.mem_reverse.1 hc),
    List.reverse_reverse]

end

namespace LinkSaver

variable {s : LinkSaver} {t : LinkTables} {said url : List Char} {index : Nat}
  {seen : List (List Char)}

/-! ## One URL -/

/-- Nothing is raised while the URL at a place is read: `urlsplit` and its port take it, and if it
is one of the first, its host is not the spelling of a number below 0. -/
structure Readable (s : LinkSaver) (index : Nat) (url : List Char) : Prop where
  split : ∃ parts, s.lib.split url = some parts ∧ parts.port ≠ none
  host : index < s.limit → ¬ ∃ hostname, ReadsHost s.lib.toUrlLib s.allowHosts url hostname ∧
    ReadsSpelling s.lib.toUrlLib s.allowHosts hostname ∧ SpelledNegative (s.lib.lower hostname)

theorem canonicalUrl_isSome_iff (lib : LinkLib) (hurl : ∀ c ∈ url, isSpace c = false) :
    (lib.canonicalUrl url).isSome ↔ ∃ parts, lib.split url = some parts ∧ parts.port ≠ none := by
  unfold LinkLib.canonicalUrl
  rw [strip_eq_self hurl]
  cases hsplit : lib.split url with
  | none => exact iff_of_false (fun h => nomatch h) fun ⟨_, h, _⟩ => nomatch h
  | some parts =>
    cases hport : parts.port with
    | none =>
      refine iff_of_false ?_ ?_
      · rw [Option.bind_eq_bind, Option.bind_some, hport]
        exact fun h => nomatch h
      · rintro ⟨parts', h, hne⟩
        obtain rfl := Option.some.inj h
        exact hne hport
    | some port =>
      refine iff_of_true ?_ ⟨parts, rfl, by simp [hport]⟩
      rw [Option.bind_eq_bind, Option.bind_some, hport]
      rfl

theorem videoSite_isSome {lib : LinkLib}
    (h : ∃ parts, lib.split url = some parts ∧ parts.port ≠ none) :
    ∃ video, lib.videoSite url = some video := by
  obtain ⟨parts, hsplit, -⟩ := h
  unfold LinkLib.videoSite
  dsimp only
  rw [hsplit]
  exact ⟨_, rfl⟩

/-- The resource of a link and its row, at a place. -/
structure SavedAt (s : LinkSaver) (said : List Char) (index : Nat) (url : List Char)
    (status : FetchStatus) (saved : Op × LinkSource) : Prop where
  body : ∃ site video, saved.1.body = .createItem (s.newId (.item index))
    (s.content url said site video) [] [] none none
  plain : saved.1.trust = .userStated ∧ saved.1.origin = .userMessage
  rowId : saved.2.id = s.newId (.source index)
  rowItem : saved.2.itemId = s.newId (.item index)
  rowUrl : saved.2.url = url
  canonical : s.lib.canonicalUrl url = some saved.2.canonicalUrl
  rowStatus : saved.2.fetchStatus = status

/-- What becomes of one URL, with the addresses that are seen afterwards. -/
inductive EntryOf (s : LinkSaver) (t : LinkTables) (said url : List Char) (index : Nat)
    (canonical : List Char) (seen : List (List Char)) : Judged → List (List Char) → Prop
  | refused {link : SavedLink} {saved : Op × LinkSource} (status : link.status = .refused)
      (original : link.duplicateOf = none) (sameUrl : link.url = url)
      (itemId : link.itemId = s.newId (.item index))
      (at_ : SavedAt s said index url .refused saved) :
      EntryOf s t said url index canonical seen (link, some saved) seen
  | pending {link : SavedLink} {saved : Op × LinkSource} (status : link.status = .pending)
      (original : link.duplicateOf = none) (sameUrl : link.url = url)
      (itemId : link.itemId = s.newId (.item index))
      (at_ : SavedAt s said index url .pending saved) :
      EntryOf s t said url index canonical seen (link, some saved) (canonical :: seen)
  | known {link : SavedLink} {source : LinkSource} (status : link.status = .pending)
      (found : t.byCanonical canonical = some source)
      (duplicate : link.duplicateOf = some source.itemId) (sameUrl : link.url = url) :
      EntryOf s t said url index canonical seen (link, none) (canonical :: seen)
  | twin {link : SavedLink} (status : link.status = .pending) (again : canonical ∈ seen)
      (duplicate : link.duplicateOf = some 0) (sameUrl : link.url = url) :
      EntryOf s t said url index canonical seen (link, none) seen

/-- The row and the op of a URL that can be split. -/
theorem item_eq_some {link : SavedLink} {canonical : List Char}
    (hcanonical : s.lib.canonicalUrl url = some canonical) {video : Bool}
    (hvideo : s.lib.videoSite url = some video) :
    ∃ saved, s.item url said index link = some saved ∧
      SavedAt s said index url link.status saved := by
  unfold item
  rw [hvideo, hcanonical]
  exact ⟨_, rfl, ⟨_, _, rfl⟩, ⟨rfl, rfl⟩, rfl, rfl, rfl, hcanonical, rfl⟩

/-- **One URL**: it raises, or it is one of four. -/
theorem entry_cases (s : LinkSaver) (t : LinkTables) (said : List Char) (index : Nat)
    (seen : List (List Char)) (hurl : ∀ c ∈ url, isSpace c = false) :
    (∃ e, s.entry t said url index seen = .error e ∧ ¬ s.Readable index url) ∨
      s.Readable index url ∧ ∃ canonical e seen', s.lib.canonicalUrl url = some canonical ∧
        s.entry t said url index seen = .ok (e, seen') ∧
        EntryOf s t said url index canonical seen e seen' := by
  have hiff := canonicalUrl_isSome_iff s.lib hurl
  cases hcanonical : s.lib.canonicalUrl url with
  | none =>
    left
    rw [hcanonical] at hiff
    refine ⟨.valueError, ?_, fun h => Bool.false_ne_true (hiff.2 h.split)⟩
    unfold entry judge
    rw [hcanonical]
    rfl
  | some canonical =>
    rw [hcanonical] at hiff
    have hsplit := hiff.1 rfl
    obtain ⟨video, hvideo⟩ := videoSite_isSome hsplit
    -- a link that is no duplicate is saved as it was judged
    have hsaved : ∀ (link : SavedLink) (seen' : List (List Char)), link.duplicateOf = none →
        s.judge t url index seen = .ok (link, seen') → ∃ saved,
          s.entry t said url index seen =
            .ok (({ link with itemId := saved.2.itemId }, some saved), seen') ∧
          SavedAt s said index url link.status saved := by
      intro link seen' hnone hjudge
      obtain ⟨saved, hitem, hat⟩ :=
        @item_eq_some s said url index link canonical hcanonical video hvideo
      refine ⟨saved, ?_, hat⟩
      unfold entry
      rw [hjudge]
      show (if link.duplicateOf ≠ none then _ else _) = _
      rw [if_neg (not_not.2 hnone), hitem]
      rfl
    have hduplicate : ∀ (link : SavedLink) (seen' : List (List Char)), link.duplicateOf ≠ none →
        s.judge t url index seen = .ok (link, seen') →
        s.entry t said url index seen = .ok ((link, none), seen') := by
      intro link seen' hsome hjudge
      unfold entry
      rw [hjudge]
      exact if_pos hsome
    by_cases hmany : s.limit ≤ index
    · have hjudge : s.judge t url index seen =
          .ok (refusedLink url (s.lib.hostForLog url) "too_many_links", seen) := by
        unfold judge
        rw [hcanonical]
        exact if_pos hmany
      obtain ⟨saved, hentry, hat⟩ := hsaved _ _ rfl hjudge
      exact .inr ⟨⟨hsplit, fun hfew => absurd hfew (Nat.not_lt.2 hmany)⟩, canonical, _, _, rfl,
        hentry, .refused rfl rfl rfl hat.rowItem hat⟩
    have hfew := Nat.not_le.1 hmany
    have hdeclared := parseUrl_declared_iff s.lib.toUrlLib s.allowHosts url
    have hjudge := Eq.refl (s.judge t url index seen)
    conv at hjudge =>
      rhs
      unfold judge
      rw [hcanonical]
      dsimp only
      rw [if_neg hmany]
    cases hparse : parseUrl s.lib.toUrlLib s.allowHosts url with
    | error e =>
      rw [hparse] at hjudge hdeclared
      cases e with
      | refused rule message detail =>
        obtain ⟨saved, hentry, hat⟩ := hsaved _ _ rfl hjudge
        exact .inr ⟨⟨hsplit, fun _ => hdeclared.1 (.inr ⟨rule, message, detail, rfl⟩)⟩, canonical,
          _, _, rfl, hentry, .refused rfl rfl rfl hat.rowItem hat⟩
      | _ =>
        refine .inl ⟨.valueError, ?_, fun h => ?_⟩
        · unfold entry
          rw [hjudge]
          rfl
        · rcases hdeclared.2 (h.host hfew) with ⟨_, hok⟩ | ⟨_, _, _, hrefused⟩
          · cases hok
          · cases hrefused
    | ok parsed =>
      rw [hparse] at hjudge hdeclared
      dsimp only at hjudge
      refine .inr ⟨⟨hsplit, fun _ => hdeclared.1 (.inl ⟨parsed, rfl⟩)⟩, canonical, ?_⟩
      split at hjudge
      · obtain ⟨saved, hentry, hat⟩ := hsaved _ _ rfl hjudge
        exact ⟨_, _, rfl, hentry, .refused rfl rfl rfl hat.rowItem hat⟩
      split at hjudge
      · rename_i hseen
        exact ⟨_, _, rfl, hduplicate _ _ (by simp) hjudge, .twin rfl hseen rfl rfl⟩
      split at hjudge
      · rename_i existing hfound
        exact ⟨_, _, rfl, hduplicate _ _ (by simp) hjudge, .known rfl hfound rfl rfl⟩
      · obtain ⟨saved, hentry, hat⟩ := hsaved _ _ rfl hjudge
        exact ⟨_, _, rfl, hentry, .pending rfl rfl rfl hat.rowItem hat⟩

/-! ## The URLs of a message -/

/-- What becomes of the URLs from a place on. -/
inductive EntriesOf (s : LinkSaver) (t : LinkTables) (said : List Char) :
    Nat → List (List Char) → List (List Char) → List Judged → Prop
  | nil {index : Nat} {seen : List (List Char)} : EntriesOf s t said index seen [] []
  | cons {index : Nat} {url canonical : List Char} {seen seen' urls : List (List Char)} {e : Judged}
      {rest : List Judged} (form : s.lib.canonicalUrl url = some canonical)
      (first : EntryOf s t said url index canonical seen e seen')
      (more : EntriesOf s t said (index + 1) seen' urls rest) :
      EntriesOf s t said index seen (url :: urls) (e :: rest)

/-- **The URLs of a message**: one of them raises, or each is one of four. -/
theorem entries_cases (s : LinkSaver) (t : LinkTables) (said : List Char) (index : Nat)
    (seen : List (List Char)) {urls : List (List Char)}
    (hurls : ∀ url ∈ urls, ∀ c ∈ url, isSpace c = false) :
    (∃ e, s.entries t said index seen urls = .error e ∧
        ¬ ∀ i url, urls[i]? = some url → s.Readable (index + i) url) ∨
      (∀ i url, urls[i]? = some url → s.Readable (index + i) url) ∧
        ∃ found, s.entries t said index seen urls = .ok found ∧
          EntriesOf s t said index seen urls found := by
  induction urls generalizing index seen with
  | nil => exact .inr ⟨fun i url h => (by simp at h), [], rfl, .nil⟩
  | cons url urls ih =>
    have hall : (∀ i url', (url :: urls)[i]? = some url' → s.Readable (index + i) url') ↔
        s.Readable index url ∧
          ∀ i url', urls[i]? = some url' → s.Readable (index + 1 + i) url' := by
      constructor
      · intro h
        refine ⟨h 0 url rfl, fun i url' hi => ?_⟩
        rw [Nat.add_right_comm]
        exact h (i + 1) url' hi
      · rintro ⟨hfirst, hrest⟩ i url' hi
        cases i with
        | zero =>
          obtain rfl := Option.some.inj hi
          exact hfirst
        | succ i =>
          rw [Nat.add_comm i 1, ← Nat.add_assoc]
          exact hrest i url' hi
    rcases entry_cases s t said index seen (hurls url List.mem_cons_self) with
      ⟨e, herror, hnot⟩ | ⟨hreadable, canonical, e, seen', hform, hentry, hof⟩
    · refine .inl ⟨e, ?_, fun h => hnot (hall.1 h).1⟩
      unfold entries
      rw [herror]
      rfl
    · rcases ih (index + 1) seen' fun url' h => hurls url' (List.mem_cons_of_mem _ h) with
        ⟨e', herror, hnot⟩ | ⟨hrest, found, hfound, hfoundOf⟩
      · refine .inl ⟨e', ?_, fun h => hnot (hall.1 h).2⟩
        unfold entries
        rw [hentry]
        show (s.entries t said (index + 1) seen' urls >>= _) = _
        rw [herror]
        rfl
      · refine .inr ⟨hall.2 ⟨hreadable, hrest⟩, e :: found, ?_, .cons hform hof hfoundOf⟩
        unfold entries
        rw [hentry]
        show (s.entries t said (index + 1) seen' urls >>= _) = _
        rw [hfound]
        rfl

/-- The link is the first of the message under its address. -/
def First (s : LinkSaver) (t : LinkTables) (canonical : List Char) (link : SavedLink) : Prop :=
  s.lib.canonicalUrl link.url = some canonical ∧ link.status = .pending ∧
    (link.duplicateOf = none ∨
      ∃ source, t.byCanonical canonical = some source ∧ link.duplicateOf = some source.itemId)

/-- What becomes of one of the URLs of a message, some addresses being seen before them. -/
inductive Becomes (s : LinkSaver) (t : LinkTables) (said : List Char) (seen : List (List Char))
    (found : List Judged) : Judged → Prop
  | saved {link : SavedLink} {saved : Op × LinkSource} {index : Nat}
      (status : link.status = .pending ∨ link.status = .refused)
      (original : link.duplicateOf = none) (itemId : link.itemId = s.newId (.item index))
      (at_ : SavedAt s said index link.url link.status saved) :
      Becomes s t said seen found (link, some saved)
  | known {link : SavedLink} {canonical : List Char} {source : LinkSource}
      (status : link.status = .pending) (form : s.lib.canonicalUrl link.url = some canonical)
      (before : t.byCanonical canonical = some source)
      (duplicate : link.duplicateOf = some source.itemId) :
      Becomes s t said seen found (link, none)
  | twin {link : SavedLink} {canonical : List Char} (status : link.status = .pending)
      (form : s.lib.canonicalUrl link.url = some canonical)
      (again : canonical ∈ seen ∨
        ∃ e ∈ found, e.1.url ≠ link.url ∧ s.First t canonical e.1)
      (duplicate : link.duplicateOf = some 0) : Becomes s t said seen found (link, none)

theorem EntryOf.url_eq {canonical : List Char} {seen' : List (List Char)} {e : Judged}
    (h : EntryOf s t said url index canonical seen e seen') : e.1.url = url := by
  cases h with
  | refused _ _ sameUrl => exact sameUrl
  | pending _ _ sameUrl => exact sameUrl
  | known _ _ _ sameUrl => exact sameUrl
  | twin _ _ _ sameUrl => exact sameUrl

theorem EntriesOf.urls_eq {urls : List (List Char)} {found : List Judged}
    (h : EntriesOf s t said index seen urls found) : found.map (·.1.url) = urls := by
  induction h with
  | nil => rfl
  | cons form first more ih => rw [List.map_cons, first.url_eq, ih]

/-- The address that is new among the seen ones is that of the first link under it. -/
theorem EntryOf.seen_of_mem {canonical c : List Char} {seen' : List (List Char)} {e : Judged}
    (hform : s.lib.canonicalUrl url = some canonical)
    (h : EntryOf s t said url index canonical seen e seen') (hc : c ∈ seen') :
    c ∈ seen ∨ c = canonical ∧ s.First t c e.1 := by
  have hurl := h.url_eq
  cases h with
  | refused => exact .inl hc
  | twin => exact .inl hc
  | pending status original =>
    rcases List.mem_cons.1 hc with rfl | hc
    · exact .inr ⟨rfl, hurl ▸ hform, status, .inl original⟩
    · exact .inl hc
  | known status found duplicate =>
    rcases List.mem_cons.1 hc with rfl | hc
    · exact .inr ⟨rfl, hurl ▸ hform, status, .inr ⟨_, found, duplicate⟩⟩
    · exact .inl hc

/-- **Each URL** is saved, or known, or there is another one like it. -/
theorem EntriesOf.becomes {urls : List (List Char)} {found : List Judged}
    (h : EntriesOf s t said index seen urls found) (hnodup : urls.Nodup) :
    ∀ e ∈ found, Becomes s t said seen found e := by
  induction h with
  | nil => exact fun e he => absurd he List.not_mem_nil
  | @cons index url canonical seen seen' urls e rest form first more ih =>
    have hurl := first.url_eq
    obtain ⟨hnew, hnodup⟩ := List.nodup_cons.1 hnodup
    intro e' he'
    rcases List.mem_cons.1 he' with rfl | he'
    · cases first with
      | refused status original sameUrl itemId at_ =>
        exact .saved (.inr status) original itemId (by rw [sameUrl, status]; exact at_)
      | pending status original sameUrl itemId at_ =>
        exact .saved (.inl status) original itemId (by rw [sameUrl, status]; exact at_)
      | known status found duplicate => exact .known status (hurl ▸ form) found duplicate
      | twin status again duplicate => exact .twin status (hurl ▸ form) (.inl again) duplicate
    · have hmem : e'.1.url ∈ urls := more.urls_eq ▸ List.mem_map_of_mem he'
      cases ih hnodup e' he' with
      | saved status original itemId at_ => exact .saved status original itemId at_
      | known status form before duplicate => exact .known status form before duplicate
      | twin status form' again duplicate =>
        refine .twin status form' ?_ duplicate
        rcases again with hseen | ⟨other, hother, hne, hfirst⟩
        · rcases first.seen_of_mem form hseen with hseen | ⟨-, hfirst⟩
          · exact .inl hseen
          · exact .inr ⟨e, List.mem_cons_self, fun heq => hnew (hurl ▸ heq ▸ hmem), hfirst⟩
        · exact .inr ⟨other, List.mem_cons_of_mem _ hother, hne, hfirst⟩

/-- What is saved stands at places that go up. -/
theorem EntriesOf.places {urls : List (List Char)} {found : List Judged}
    (h : EntriesOf s t said index seen urls found) : ∃ places : List Nat,
      places.Pairwise (· < ·) ∧ (∀ i ∈ places, index ≤ i) ∧
        List.Forall₂ (fun i saved => ∃ url status, SavedAt s said i url status saved) places
          (found.filterMap (·.2)) := by
  induction h with
  | nil => exact ⟨[], .nil, by simp, .nil⟩
  | @cons index url canonical seen seen' urls e rest form first more ih =>
    obtain ⟨places, hup, hfrom, hall⟩ := ih
    have hlater : ∀ i ∈ places, index ≤ i := fun i hi => Nat.le_of_succ_le (hfrom i hi)
    have hsaved : ∀ link saved status, SavedAt s said index url status saved →
        ∃ places : List Nat, places.Pairwise (· < ·) ∧ (∀ i ∈ places, index ≤ i) ∧
          List.Forall₂ (fun i saved => ∃ url status, SavedAt s said i url status saved) places
            (((link, some saved) :: rest : List Judged).filterMap (·.2)) := by
      intro link saved status hat
      refine ⟨index :: places, List.pairwise_cons.2 ⟨hfrom, hup⟩, ?_, ?_⟩
      · intro i hi
        rcases List.mem_cons.1 hi with rfl | hi
        · exact Nat.le_refl _
        · exact hlater i hi
      · exact .cons ⟨url, status, hat⟩ hall
    cases first with
    | refused _ _ _ _ at_ => exact hsaved _ _ _ at_
    | pending _ _ _ _ at_ => exact hsaved _ _ _ at_
    | known => exact ⟨places, hup, hlater, hall⟩
    | twin => exact ⟨places, hup, hlater, hall⟩

/-! ## The commit -/

/-- The op makes the resource of the link at a place. -/
def MakesLink (s : LinkSaver) (i : Nat) (op : Op) : Prop :=
  ∃ said url site video, op.body =
      .createItem (s.newId (.item i)) (s.content url said site video) [] [] none none ∧
    op.trust = .userStated ∧ op.origin = .userMessage

/-- The policy lets a link in. -/
theorem verdict_makesLink (ops : List Op) {op : Op} {i : Nat} (h : s.MakesLink i op) (u : Tables) :
    ∃ v, (s.writer ops).verdict u op = .ok v ∧ v.decision = .allowed := by
  obtain ⟨said, url, site, video, hbody, htrust, horigin⟩ := h
  have hfacts : facts u op (createdItems (s.writer ops).ops) =
      { op := .create, kind := some .resource } := by
    simp only [facts, hbody, htrust, horigin, opLabel]
    rfl
  have hallowed : (Policy.evaluate { op := .create, kind := some .resource }
      (s.writer ops).context).decision = .allowed := by
    rw [Policy.evaluate_allowed_iff]
    simp [Policy.rules, Policy.pSecret1, Policy.pTrust1, Policy.pMod1, Policy.pInfer1,
      Policy.pSens1, Policy.pCore1, Policy.pBulk1, Writer.context]
    exact fun _ _ h => absurd (show TurnKind.user = TurnKind.system from h) (by decide)
  refine ⟨_, ?_, hallowed⟩
  unfold Writer.verdict
  dsimp only
  rw [hfacts]
  exact if_neg fun h => Bool.false_ne_true h.2

/-- A link is put in under an id that is free. -/
theorem apply_makesLink {ops : List Op} {op : Op} {i n : Nat} (h : s.MakesLink i op) {u : Tables}
    {log : Writer.RowLog} (hfree : u.getItem (s.newId (.item i)) = none) :
    ∃ x, (s.writer ops).apply u n log op.body = .ok x := by
  obtain ⟨said, url, site, video, hbody, -⟩ := h
  have hstate : validState .resource ((kindStates .resource).headD "") = true := by decide
  rw [hbody, Writer.apply_ok_iff]
  refine ⟨hfree, hstate, fun _ => ?_, ⟨by simp, fun _ => freshIds_nil _, fun _ => freshIds_nil _⟩,
    fun _ => freshIds_nil _⟩
  exact decide_eq_true ⟨hstate, .inr rfl, rfl, rfl⟩

/-- The resource of the link at a place is stored as the op has it. -/
def Made (s : LinkSaver) (u : Tables) (i : Nat) (op : Op) : Prop :=
  ∃ item r, op.body = .createItem (s.newId (.item i)) item [] [] none none ∧
    u.getItem (s.newId (.item i)) = some r ∧ r.toItemContent = item

/-- **The links of a batch** are put in one after the other. -/
theorem steps_makeLinks {ops₀ ops : List Op} {places : List Nat} {sb n : Nat} {p : Writer.Progress}
    (hmake : List.Forall₂ s.MakesLink places ops) (hup : places.Pairwise (· < ·))
    (happart : Function.Injective s.newId)
    (hfree : ∀ i ∈ places, p.tables.getItem (s.newId (.item i)) = none) :
    ∃ p', (s.writer ops₀).steps sb n p ops = .ok p' ∧ p'.held = p.held ∧
      List.Forall₂ (s.Made p'.tables) places ops ∧
      ∀ id, (∀ i ∈ places, id ≠ s.newId (.item i)) →
        p'.tables.getItem id = p.tables.getItem id := by
  induction hmake generalizing n p with
  | nil => exact ⟨p, rfl, rfl, .nil, fun id _ => rfl⟩
  | @cons i op places ops hfirst hrest ih =>
    obtain ⟨hafter, hup⟩ := List.pairwise_cons.1 hup
    have hi := hfree i List.mem_cons_self
    have hother : ∀ j ∈ places, s.newId (.item j) ≠ s.newId (.item i) := by
      intro j hj heq
      injection happart heq with hji
      exact Nat.ne_of_gt (hafter j hj) hji
    -- the op is allowed and applied
    obtain ⟨v, hv, hallowed⟩ := verdict_makesLink ops₀ hfirst p.tables
    obtain ⟨⟨u, log⟩, happly⟩ : ∃ x, (s.writer ops₀).apply p.tables n
        { seqBase := sb, op := op, seq := p.seq } op.body = .ok x := apply_makesLink hfirst hi
    obtain ⟨q, hq⟩ : ∃ q, (s.writer ops₀).step sb n p op = .ok q :=
      (Writer.step_ok_iff ⟨v, hv⟩).2 fun _ => .inl ⟨_, happly⟩
    obtain ⟨said, url, site, video, hbody, -⟩ := hfirst
    have hcreate := happly
    rw [hbody] at hcreate
    obtain ⟨record, hrecord, -, hitems, -⟩ := Writer.createItem_frame hcreate
    obtain ⟨-, hnew⟩ := Writer.newItem_eq_ok_iff.1 hrecord
    have hid : record.id = s.newId (.item i) := by
      rw [hnew]
      rfl
    have hcontent : record.toItemContent = s.content url said site video := by
      rw [hnew]
      rfl
    obtain ⟨htables, hheld⟩ : q.tables = u ∧ q.held = p.held := by
      rcases Writer.step_cases hq with ⟨v', hv', hd, -⟩ | ⟨v', u', reason, -, -, hskip, -⟩ |
        ⟨v', u', log', -, -, happly', rfl⟩
      · rw [hv] at hv'
        obtain rfl := Except.ok.inj hv'
        exact absurd hallowed hd
      · rw [happly] at hskip
        exact nomatch hskip
      · rw [happly] at happly'
        exact ⟨(Prod.mk.inj (Except.ok.inj happly')).1.symm, rfl⟩
    have hget : ∀ id, id ≠ s.newId (.item i) → q.tables.getItem id = p.tables.getItem id := by
      intro id hne
      rw [htables, MemoryTables.getItem, hitems, KeyTable.lookup_put_of_ne _ (hid ▸ hne)]
      rfl
    obtain ⟨p', hp', hheld', hmade, hsame⟩ := ih (n := n + 1) (p := q) hup fun j hj => by
      rw [hget _ (hother j hj)]
      exact hfree j (List.mem_cons_of_mem _ hj)
    refine ⟨p', bind_eq_ok.2 ⟨q, hq, hp'⟩, hheld'.trans hheld, .cons ?_ hmade, fun id hne => ?_⟩
    · refine ⟨_, record, hbody, ?_, hcontent⟩
      rw [hsame _ fun j hj => (hother j hj).symm, htables, MemoryTables.getItem, hitems, ← hid]
      exact KeyTable.lookup_put_self _ _
    · rw [hsame id fun j hj => hne j (List.mem_cons_of_mem _ hj)]
      exact hget id (hne i List.mem_cons_self)

/-- The ids of a save are new, and each is given once. -/
structure NewIds (s : LinkSaver) (t : LinkTables) : Prop where
  apart : Function.Injective s.newId
  items : ∀ i, t.tables.getItem (s.newId (.item i)) = none
  rows : ∀ row ∈ t.sources, ∀ i,
    row.id ≠ s.newId (.source i) ∧ row.itemId ≠ s.newId (.item i)

/-- Links edit nothing, so that no batch of them is held whole. -/
theorem not_heldWhole {ops : List Op} {places : List Nat}
    (hmake : List.Forall₂ s.MakesLink places ops) : (s.writer ops).heldWhole = false := by
  have hnone : ops.filterMap (fun op => op.body.editedItem) = [] := by
    rw [List.filterMap_eq_nil_iff]
    intro op hop
    obtain ⟨i, -, said, url, site, video, hbody, -⟩ := exists_of_forall₂ hmake.flip hop
    rw [hbody]
    rfl
  have hedited : editedItems (s.writer ops).ops = ∅ := by
    show (ops.filterMap fun op => op.body.editedItem).toFinset \ createdItems ops = ∅
    rw [hnone, List.toFinset_nil, Finset.empty_sdiff]
  unfold Writer.heldWhole
  rw [hedited]
  simp

/-- **The batch of links commits**, and leaves all other items as they are. -/
theorem writer_commits {ops : List Op} {places : List Nat} (hids : s.NewIds t)
    (hmake : List.Forall₂ s.MakesLink places ops) (hup : places.Pairwise (· < ·)) :
    ∃ x, (s.writer ops).commit t.tables = .ok x ∧ List.Forall₂ (s.Made x.1) places ops ∧
      ∀ id, (∀ i ∈ places, id ≠ s.newId (.item i)) → x.1.getItem id = t.tables.getItem id := by
  have hmemory := (s.writer ops).writeVocab_memory t.tables
  have hfree : ∀ i ∈ places,
      ((s.writer ops).writeVocab t.tables).getItem (s.newId (.item i)) = none := by
    intro i _
    rw [hmemory]
    exact hids.items i
  obtain ⟨p, hp, hheld, hmade, hsame⟩ := @steps_makeLinks s ops ops places
    ((s.writer ops).seqBase t.tables) 0 { tables := (s.writer ops).writeVocab t.tables } hmake hup
    hids.apart hfree
  have hbatch : (s.writer ops).applyAll ((s.writer ops).seqBase t.tables)
      ((s.writer ops).writeVocab t.tables) = .ok p := by
    unfold Writer.applyAll
    rw [not_heldWhole hmake]
    exact hp
  have hcommit : ∃ x, (s.writer ops).commit t.tables = .ok x := by
    refine ⟨_, bind_eq_ok.2 ⟨p, hbatch, bind_eq_ok.2
      ⟨p.tables.insertWriteLog (p.outcomes.flatMap (·.rows)), ?_, rfl⟩⟩⟩
    rw [hheld]
    rfl
  obtain ⟨⟨t', res⟩, hcommit⟩ := hcommit
  obtain ⟨q, hq⟩ := Writer.commit_parts hcommit
  obtain rfl : q = p := Except.ok.inj (hq.batch.symm.trans hbatch)
  have hget : ∀ id, t'.getItem id = q.tables.getItem id := fun id => by rw [hq.memory]
  refine ⟨(t', res), hcommit, hmade.imp fun i op h => ?_, fun id hid => ?_⟩
  · obtain ⟨item, r, hbody, hr, hcontent⟩ := h
    exact ⟨item, r, hbody, (hget _).trans hr, hcontent⟩
  · show t'.getItem id = _
    rw [hget, hsame id hid]
    show ((s.writer ops).writeVocab t.tables).getItem id = _
    rw [hmemory]

/-- **The rows of the links** are put in. -/
theorem add_sources {places : List Nat} {saved : List (Op × LinkSource)} {u : LinkTables}
    (hat : List.Forall₂ (fun i saved => ∃ url status, SavedAt s said i url status saved) places
      saved)
    (hup : places.Pairwise (· < ·)) (happart : Function.Injective s.newId)
    (hitems : ∀ i ∈ places, (u.tables.getItem (s.newId (.item i))).isSome)
    (hrows : ∀ row ∈ u.sources, ∀ i ∈ places,
      row.id ≠ s.newId (.source i) ∧ row.itemId ≠ s.newId (.item i)) :
    (saved.map (·.2)).foldlM (LinkTables.add s.backend) u =
      .ok { u with sources := u.sources ++ saved.map (·.2) } := by
  induction hat generalizing u with
  | nil =>
    rw [List.map_nil, List.append_nil]
    rfl
  | @cons i first places saved hfirst hrest ih =>
    obtain ⟨url, status, hfirst⟩ := hfirst
    obtain ⟨hafter, hup⟩ := List.pairwise_cons.1 hup
    have hadd : u.add s.backend first.2 = .ok { u with sources := u.sources ++ [first.2] } := by
      refine if_neg fun h => h.2 ⟨fun row hrow => ?_, ?_⟩
      · rw [hfirst.rowId, hfirst.rowItem]
        exact hrows row hrow i List.mem_cons_self
      · rw [hfirst.rowItem]
        exact hitems i List.mem_cons_self
    rw [List.map_cons, List.foldlM_cons, hadd]
    show (saved.map (·.2)).foldlM (LinkTables.add s.backend)
      { u with sources := u.sources ++ [first.2] } = _
    rw [@ih { u with sources := u.sources ++ [first.2] } hup
      (fun j hj => hitems j (List.mem_cons_of_mem _ hj)) ?_, List.append_assoc,
      List.singleton_append]
    intro row hrow j hj
    rcases List.mem_append.1 hrow with hrow | hrow
    · exact hrows row hrow j (List.mem_cons_of_mem _ hj)
    · rw [List.mem_singleton.1 hrow, hfirst.rowId, hfirst.rowItem]
      refine ⟨fun heq => ?_, fun heq => ?_⟩
      · injection happart heq with hij
        exact Nat.ne_of_lt (hafter j hj) hij
      · injection happart heq with hij
        exact Nat.ne_of_lt (hafter j hj) hij

/-- **A plan commits**, its resources and then their rows. -/
theorem commit_plan {plan : LinkPlan} {places : List Nat} {saved : List (Op × LinkSource)}
    (hids : s.NewIds t) (hops : plan.ops = saved.map (·.1))
    (hsources : plan.sources = saved.map (·.2))
    (hplaces : List.Forall₂ (fun i saved => ∃ url status, SavedAt s said i url status saved) places
      saved) (hup : places.Pairwise (· < ·)) :
    ∃ t', s.commit plan t = .ok t' ∧ List.Forall₂ (s.Made t'.tables) places (saved.map (·.1)) ∧
      (∀ id, (∀ i ∈ places, id ≠ s.newId (.item i)) →
        t'.tables.getItem id = t.tables.getItem id) ∧
      t'.sources = t.sources ++ saved.map (·.2) := by
  unfold commit
  rw [hops, hsources]
  by_cases hnone : saved.map (·.1) = []
  · obtain rfl := List.map_eq_nil_iff.1 hnone
    cases hplaces
    rw [if_pos hnone]
    exact ⟨t, rfl, .nil, fun _ _ => rfl, (List.append_nil _).symm⟩
  · rw [if_neg hnone]
    have hmake : List.Forall₂ s.MakesLink places (saved.map (·.1)) := by
      rw [List.forall₂_map_right_iff]
      refine hplaces.imp fun i saved h => ?_
      obtain ⟨url, status, hat⟩ := h
      obtain ⟨site, video, hbody⟩ := hat.body
      exact ⟨said, url, site, video, hbody, hat.plain⟩
    obtain ⟨x, hcommit, hmade, hsame⟩ := writer_commits hids hmake hup
    have hstored : ∀ i ∈ places, (x.1.getItem (s.newId (.item i))).isSome := by
      intro i hi
      obtain ⟨op, -, item, r, -, hr, -⟩ := exists_of_forall₂ hmade hi
      rw [hr]
      rfl
    have hadd := @add_sources s said places saved { t with tables := x.1 } hplaces hup hids.apart
      hstored fun row hrow i _ => hids.rows row hrow i
    rw [hcommit]
    exact ⟨_, hadd, hmade, hsame, rfl⟩

/-! ## The account of a message -/

/-- The link is saved as a resource of its own, with its row. -/
structure SavedAs (s : LinkSaver) (status : FetchStatus) (t t' : LinkTables) (link : SavedLink) :
    Prop where
  isSaved : link.status = status
  original : link.duplicateOf = none
  new : t.tables.getItem link.itemId = none
  item : ∃ r, t'.tables.getItem link.itemId = some r ∧ r.status = .active ∧ r.kind = .resource ∧
    r.source = .link ∧ r.contentRef = some (String.ofList link.url)
  row : ∃ row ∈ t'.sources, row ∉ t.sources ∧ row.itemId = link.itemId ∧ row.url = link.url ∧
    row.fetchStatus = status ∧ s.lib.canonicalUrl link.url = some row.canonicalUrl

/-- What a link may end in: it waits to be read, it is refused, or it is a duplicate, of a link that
was saved before or of another one in the message. -/
inductive Ends (s : LinkSaver) (t t' : LinkTables) (links : List SavedLink) (link : SavedLink) :
    Prop
  | pending (saved : s.SavedAs .pending t t' link)
  | refused (saved : s.SavedAs .refused t t' link)
  | known {canonical : List Char} {source : LinkSource}
      (form : s.lib.canonicalUrl link.url = some canonical)
      (before : t.byCanonical canonical = some source) (status : link.status = .pending)
      (duplicate : link.duplicateOf = some source.itemId)
  | twin {canonical : List Char} {other : SavedLink} (found : other ∈ links)
      (apart : other.url ≠ link.url) (form : s.lib.canonicalUrl link.url = some canonical)
      (first : s.First t canonical other) (status : link.status = .pending)
      (duplicate : link.duplicateOf = some 0)

/-- **Every link is accounted for**, each once, and nothing else is saved. -/
structure Accounted (s : LinkSaver) (t t' : LinkTables) (urls : List (List Char))
    (links : List SavedLink) : Prop where
  each : links.map (·.url) = urls
  once : urls.Nodup
  ends : ∀ link ∈ links, s.Ends t t' links link
  rows : ∃ new, t'.sources = t.sources ++ new ∧
    new.map (·.itemId) = (links.filter (·.duplicateOf = none)).map (·.itemId)
  others : ∀ id, (∀ link ∈ links, link.duplicateOf = none → id ≠ link.itemId) →
    t'.tables.getItem id = t.tables.getItem id

/-- The rows of what is found are those of the links that are no duplicates. -/
theorem rows_eq {found all : List Judged} (h : ∀ e ∈ found, s.Becomes t said seen all e) :
    ((found.filterMap (·.2)).map (·.2)).map (·.itemId) =
      ((found.map (·.1)).filter (·.duplicateOf = none)).map (·.itemId) := by
  induction found with
  | nil => rfl
  | cons e found ih =>
    have hrest := ih fun e' he' => h e' (List.mem_cons_of_mem _ he')
    cases h e List.mem_cons_self with
    | saved status original itemId at_ =>
      have hfirst := at_.rowItem.trans itemId.symm
      simp only [List.filterMap_cons, List.map_cons, List.filter_cons, original, hfirst]
      exact congrArg _ hrest
    | known status form before duplicate =>
      simpa [List.filter_cons, duplicate] using hrest
    | twin status form again duplicate =>
      simpa [List.filter_cons, duplicate] using hrest

/-- What is found, once it is committed. -/
theorem accounted {urls : List (List Char)} {found : List Judged} {places : List Nat}
    {t' : LinkTables} (hids : s.NewIds t) (hfound : EntriesOf s t said 0 [] urls found)
    (hnodup : urls.Nodup)
    (hmade : List.Forall₂ (s.Made t'.tables) places ((found.filterMap (·.2)).map (·.1)))
    (hplaces : List.Forall₂ (fun i saved => ∃ url status, SavedAt s said i url status saved) places
      (found.filterMap (·.2)))
    (hsame : ∀ id, (∀ i ∈ places, id ≠ s.newId (.item i)) →
      t'.tables.getItem id = t.tables.getItem id)
    (hsources : t'.sources = t.sources ++ (found.filterMap (·.2)).map (·.2)) :
    s.Accounted t t' urls (found.map (·.1)) := by
  have hbecomes := hfound.becomes hnodup
  refine ⟨?_, hnodup, fun link hlink => ?_, ⟨_, hsources, rows_eq hbecomes⟩, fun id hid => ?_⟩
  · rw [List.map_map]
    exact hfound.urls_eq
  · obtain ⟨e, he, rfl⟩ := List.mem_map.1 hlink
    have hsaved : ∀ saved index status, e.2 = some saved → e.1.status = status →
        e.1.duplicateOf = none → e.1.itemId = s.newId (.item index) →
        SavedAt s said index e.1.url e.1.status saved → s.SavedAs status t t' e.1 := by
      intro saved index status hsome hstatus horiginal hitemId hat
      have hmem : saved ∈ found.filterMap (·.2) := List.mem_filterMap.2 ⟨e, he, hsome⟩
      obtain ⟨site, video, hbody⟩ := hat.body
      obtain ⟨i, -, item, r, hmadeBody, hr, hcontent⟩ :=
        exists_of_forall₂ hmade.flip (List.mem_map_of_mem hmem)
      rw [hbody] at hmadeBody
      injection hmadeBody with hi hitem
      rw [← hi, ← hitemId] at hr
      rw [← hitem] at hcontent
      refine ⟨hstatus, horiginal, ?_, ⟨r, hr, ?_⟩, saved.2, ?_, fun hold => ?_, ?_, hat.rowUrl,
        hat.rowStatus.trans hstatus, hat.canonical⟩
      · rw [hitemId]
        exact hids.items index
      · rw [hcontent]
        exact ⟨rfl, rfl, rfl, rfl⟩
      · rw [hsources]
        exact List.mem_append_right _ (List.mem_map_of_mem hmem)
      · exact (hids.rows _ hold index).1 hat.rowId
      · rw [hitemId, hat.rowItem]
    cases hbecomes e he with
    | saved status original itemId at_ =>
      rcases status with status | status
      · exact .pending (hsaved _ _ _ rfl status original itemId at_)
      · exact .refused (hsaved _ _ _ rfl status original itemId at_)
    | known status form before duplicate => exact .known form before status duplicate
    | twin status form again duplicate =>
      rcases again with hseen | ⟨other, hother, hne, hfirst⟩
      · exact absurd hseen List.not_mem_nil
      · exact .twin (List.mem_map_of_mem hother) hne form hfirst status duplicate
  · refine hsame id fun i hi heq => ?_
    obtain ⟨saved, hmem, url, status, hat⟩ := exists_of_forall₂ hplaces hi
    obtain ⟨e, he, hsome⟩ := List.mem_filterMap.1 hmem
    cases hbecomes e he with
    | saved _ original itemId at_ =>
      obtain rfl := Option.some.inj hsome
      refine hid _ (List.mem_map_of_mem he) original ?_
      rw [heq, itemId, ← at_.rowItem, hat.rowItem]
    | known => exact nomatch hsome
    | twin => exact nomatch hsome

/-- **Every URL of a message is accounted for** exactly when each of them can be read. -/
theorem save_accounts_iff (s : LinkSaver) (t : LinkTables) (hids : s.NewIds t)
    (message : List Char) :
    (∃ t' result, s.save message t = .ok (t', result) ∧
        s.Accounted t t' (extractUrls s.lib.lower message) (result.elim [] (·.links))) ↔
      ∀ i url, (extractUrls s.lib.lower message)[i]? = some url → s.Readable i url := by
  obtain ⟨hnodup, hspaces⟩ := extractUrls_spec s.lib.lower message
  by_cases hnone : extractUrls s.lib.lower message = []
  · have hsave : s.save message t = .ok (t, none) := by
      have hplan : s.plan message t = .ok none := if_pos hnone
      unfold save
      rw [hplan]
      rfl
    rw [hsave, hnone]
    refine iff_of_true
      ⟨t, none, rfl, rfl, .nil, ?_, ⟨[], (List.append_nil _).symm, rfl⟩, fun _ _ => rfl⟩
      fun i url h => (by simp at h)
    exact fun link h => absurd h List.not_mem_nil
  let said := withoutLinks message (extractUrls s.lib.lower message)
  have hplan : s.plan message t = (s.entries t said 0 [] (extractUrls s.lib.lower message)).map
      fun found => some
        { result := { remaining := said, links := found.map (·.1) }
          ops := found.filterMap fun e => e.2.map (·.1)
          sources := found.filterMap fun e => e.2.map (·.2) } := by
    refine (if_neg hnone).trans ?_
    show (s.entries t said 0 [] _ >>= _) = _
    cases s.entries t said 0 [] (extractUrls s.lib.lower message) with
    | error e => rfl
    | ok found => rfl
  rcases entries_cases s t said 0 [] hspaces with ⟨e, herror, hnot⟩ | ⟨hall, found, hfound, hof⟩
  · simp only [Nat.zero_add] at hnot
    refine iff_of_false ?_ hnot
    rintro ⟨t', result, hsave, -⟩
    unfold save at hsave
    rw [hplan, herror] at hsave
    exact nomatch hsave
  · simp only [Nat.zero_add] at hall
    refine iff_of_true ?_ hall
    obtain ⟨places, hup, -, hplaces⟩ := hof.places
    let plan : LinkPlan :=
      { result := { remaining := said, links := found.map (·.1) }
        ops := found.filterMap fun e => e.2.map (·.1)
        sources := found.filterMap fun e => e.2.map (·.2) }
    obtain ⟨t', hcommit, hmade, hsame, hsources⟩ := @commit_plan s t said plan places
      (found.filterMap (·.2)) hids (List.map_filterMap ..).symm (List.map_filterMap ..).symm hplaces
      hup
    refine ⟨t', some plan.result, ?_, accounted hids hof hnodup hmade hplaces hsame hsources⟩
    unfold save
    rw [hplan, hfound]
    show ((s.commit plan t).mapError LinkError.failure >>= _) = _
    rw [hcommit]
    rfl

end LinkSaver

/-! ## A port that is none -/

/-- The parts of a page of `example.com`. -/
def pageParts (netloc : String) (port : Option (Option Nat)) : SplitParts where
  scheme := "http".toList
  netloc := netloc.toList
  path := "/page".toList
  query := []
  username := none
  password := none
  hostname := some "example.com".toList
  port := port

/-- `urlsplit`, as far as it is asked about one page. -/
def pageSplit (netloc : String) (port : Option (Option Nat)) (url : List Char) :
    Option SplitParts :=
  if url = ("http://" ++ netloc ++ "/page").toList then some (pageParts netloc port) else none

def pageLib (netloc : String) (port : Option (Option Nat)) : LinkLib where
  toUrlLib :=
    { signedHost with urlsplit := fun url => (pageSplit netloc port url).bind SplitParts.read }
  split := pageSplit netloc port
  urlsplit_eq := fun _ => rfl
  unquote := id
  quote := id
  parseQsl := fun _ => []
  urlencode := fun _ => []
  unsplit := fun scheme netloc path _ => scheme ++ "://".toList ++ netloc ++ path

/-- The saver of one turn, on an empty store. -/
def pageSaver (netloc : String) (port : Option (Option Nat)) : LinkSaver where
  lib := pageLib netloc port
  backend := .sql
  turnId := 1
  now := 1
  newId := fun
    | .item i => 100 + 2 * i
    | .source i => 101 + 2 * i

def noLinks : LinkTables where
  tables := Tables.initial 0

/-- **A port out of range** raises while the link is compared with the saved ones. -/
theorem wild_port_raises :
    extractUrls (pageSaver "example.com:99999" none).lib.lower
        "see http://example.com:99999/page".toList = ["http://example.com:99999/page".toList] ∧
      (match (pageSaver "example.com:99999" none).save "see http://example.com:99999/page".toList
          noLinks with | .error e => some e | .ok _ => none) = some .valueError := by
  decide +kernel

theorem newIds_pageSaver (netloc : String) (port : Option (Option Nat)) :
    (pageSaver netloc port).NewIds noLinks where
  apart := by
    intro a b h
    cases a with
    | item i =>
      cases b with
      | item j =>
        have hij : 100 + 2 * i = 100 + 2 * j := h
        rw [show i = j by omega]
      | source j =>
        have hij : 100 + 2 * i = 101 + 2 * j := h
        omega
    | source i =>
      cases b with
      | item j =>
        have hij : 101 + 2 * i = 100 + 2 * j := h
        omega
      | source j =>
        have hij : 101 + 2 * i = 101 + 2 * j := h
        rw [show i = j by omega]
  items := fun _ => KeyTable.lookup_empty _
  rows := fun _ h => absurd h List.not_mem_nil

/-- A page without one is accounted for. -/
theorem page_accounted : ∃ t' result,
    (pageSaver "example.com" (some none)).save "see http://example.com/page".toList noLinks =
        .ok (t', result) ∧
      (pageSaver "example.com" (some none)).Accounted noLinks t'
        (extractUrls (pageSaver "example.com" (some none)).lib.lower
          "see http://example.com/page".toList) (result.elim [] (·.links)) := by
  have hurls : extractUrls (pageSaver "example.com" (some none)).lib.lower
      "see http://example.com/page".toList = ["http://example.com/page".toList] := by
    decide +kernel
  have hsplit : (pageSaver "example.com" (some none)).lib.split "http://example.com/page".toList =
      some (pageParts "example.com" (some none)) := by
    have hpage : "http://example.com/page".toList =
        ("http://" ++ "example.com" ++ "/page").toList := by
      decide +kernel
    have hsome : pageSplit "example.com" (some none) "http://example.com/page".toList =
        some (pageParts "example.com" (some none)) := by
      rw [pageSplit, if_pos hpage]
    exact hsome
  have hparsed : ∃ parsed, parseUrl (pageSaver "example.com" (some none)).lib.toUrlLib []
      "http://example.com/page".toList = .ok parsed := by
    have hran : (parseUrl (pageSaver "example.com" (some none)).lib.toUrlLib []
        "http://example.com/page".toList).toOption.isSome = true := by decide +kernel
    obtain ⟨parsed, h⟩ := Option.isSome_iff_exists.1 hran
    exact ⟨parsed, of_mem_toOption h⟩
  refine (LinkSaver.save_accounts_iff (pageSaver "example.com" (some none)) noLinks
    (newIds_pageSaver _ _) _).2 fun i url hi => ?_
  rw [hurls] at hi
  cases i with
  | succ i => exact nomatch hi
  | zero =>
    obtain rfl := Option.some.inj hi
    exact ⟨⟨_, hsplit, Option.some_ne_none none⟩,
      fun _ => (parseUrl_declared_iff _ _ _).1 (.inl hparsed)⟩

end Links
end SecondMind
