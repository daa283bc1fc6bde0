import CapsuleCompiler.Proofs.Template.Braces

/-!
# Proofs.Template.Placeholders — which placeholders are filled, and which are refused

A closed placeholder is filled if an even number of opening braces stands directly in front of it; behind an odd number
it is copied, although rendering succeeds (`placeholder_filled_iff`).  A key that is left open is refused if an even
number stands in front of its braces and no closing follows anywhere behind it; if one follows, even one that closes
another placeholder, the open one is copied (`refused_iff`).
-/

namespace CapsuleCompiler.Template

variable {cs body key pre post tail rest : List Char} {bindings : Dict String} {t : Template} {text : String}

/-! ### Closed placeholders -/

theorem hasClosing_placeholder (front body key back : List Char) :
    HasClosing (front ++ ((Segment.slot key body).source ++ back)) :=
  ⟨front ++ '{' :: '{' :: body, back, by simp [Segment.source]⟩

theorem standsAt_of_even (hkey : Spells body key) (heven : Even (openRun pre)) :
    StandsAt (pre ++ ((Segment.slot key body).source ++ post)) pre [.slot key body] post := by
  have hbehind : (Segment.slot key body).source ++ post = '{' :: '{' :: (body ++ '}' :: '}' :: post) := by
    simp [Segment.source]
  refine Reached.standsAt ?_ fun late hnone => absurd (hasClosing_placeholder late body key post) hnone
  have hreached := reached_of_even pre (body ++ '}' :: '}' :: post) heven
  rwa [letters_placeholder hkey, ← hbehind] at hreached

theorem standsAt_of_odd (hkey : Spells body key) (hodd : ¬Even (openRun pre)) :
    StandsAt (pre ++ ((Segment.slot key body).source ++ post)) pre (singles (Segment.slot key body).source) post := by
  refine Reached.standsAt ?_ fun late hnone => absurd (hasClosing_placeholder late body key post) hnone
  refine reached_of_odd pre post hodd (List.append_ne_nil_of_left_ne_nil hkey.ne_nil _) fun hmem => ?_
  exact (List.mem_append.1 hmem).elim hkey.opening_notMem (by decide)

theorem not_standsAt_both (hslot : StandsAt cs pre [.slot key body] post)
    (hcopied : StandsAt cs pre (singles (Segment.slot key body).source) post) : False := by
  cases hslot.unique hcopied

/-- **Where a placeholder is filled.**  It stands as a placeholder among the parts of the template if the run of opening
braces in front of it is even, and as text if the run is odd.  So a text that is rendered has in its place the value of
its key in the one case, and the placeholder as it is written in the other. -/
theorem placeholder_filled_iff (t : Template) (hkey : Spells body key)
    (hsource : t.source.toList = pre ++ ((Segment.slot key body).source ++ post)) :
    (StandsAt t.source.toList pre [.slot key body] post ↔ Even (openRun pre)) ∧
    (StandsAt t.source.toList pre (singles (Segment.slot key body).source) post ↔ ¬Even (openRun pre)) ∧
    ∀ bindings text, t.render bindings = .ok text →
      (Even (openRun pre) → ∃ value, bindings.get? (.ofList key) = some value ∧
        ShownAt bindings t.source.toList text.toList pre value.toList post) ∧
      (¬Even (openRun pre) →
        ShownAt bindings t.source.toList text.toList pre (Segment.slot key body).source post) := by
  have heven (h : Even (openRun pre)) : StandsAt t.source.toList pre [.slot key body] post :=
    hsource ▸ standsAt_of_even hkey h
  have hodd (h : ¬Even (openRun pre)) : StandsAt t.source.toList pre (singles (Segment.slot key body).source) post :=
    hsource ▸ standsAt_of_odd hkey h
  refine ⟨⟨fun h => ?_, heven⟩, ⟨fun h h' => not_standsAt_both (heven h') h, hodd⟩,
    fun bindings text hrender => ⟨fun h => ?_, fun h => ?_⟩⟩
  · by_contra hnot
    exact not_standsAt_both h (hodd hnot)
  · have hbound : bindings.contains (.ofList key) := (heven h).filled hrender _ List.mem_cons_self
    obtain ⟨value, hvalue⟩ := Option.isSome_iff_exists.1 hbound
    refine ⟨value, hvalue, ?_⟩
    have hshown := (heven h).shownAt hrender
    rwa [fill_cons, Segment.shown, hvalue, fill_nil, List.append_nil] at hshown
  · have hshown := (hodd h).shownAt hrender
    rwa [fill_singles] at hshown

def bodyIsB : Dict String := .ofList [("body", "B")]

/-- A placeholder in two pairs of braces: the outer pair is text. -/
def pairedBody : Template where
  source := "\x7b\x7b\x7b\x7b body \x7d\x7d\x7d\x7d"

theorem pairedBody_filled :
    Spells " body ".toList "body".toList ∧ Even (openRun "\x7b\x7b".toList) ∧
    pairedBody.source.toList = "\x7b\x7b".toList ++
      ((Segment.slot "body".toList " body ".toList).source ++ "\x7d\x7d".toList) ∧
    StandsAt pairedBody.source.toList "\x7b\x7b".toList [.slot "body".toList " body ".toList] "\x7d\x7d".toList ∧
    pairedBody.render bodyIsB = .ok "\x7b\x7bB\x7d\x7d" ∧
    ShownAt bodyIsB pairedBody.source.toList "\x7b\x7bB\x7d\x7d".toList "\x7b\x7b".toList ['B'] "\x7d\x7d".toList := by
  have hkey : Spells " body ".toList "body".toList := spells_iff.2 (by decide)
  have heven : Even (openRun "\x7b\x7b".toList) := by decide
  have hsource : pairedBody.source.toList = "\x7b\x7b".toList ++
      ((Segment.slot "body".toList " body ".toList).source ++ "\x7d\x7d".toList) := by decide
  have hfilled : refusal? bodyIsB.contains (segments pairedBody.source.toList) = none := by decide +kernel
  have htext : fill bodyIsB (segments pairedBody.source.toList) = "\x7b\x7bB\x7d\x7d".toList := by decide +kernel
  have hrender : pairedBody.render bodyIsB = .ok "\x7b\x7bB\x7d\x7d" := render_eq_ok.2 ⟨hfilled, htext⟩
  obtain ⟨hstands, -, hshown⟩ := placeholder_filled_iff pairedBody hkey hsource
  obtain ⟨value, hvalue, hvalueShown⟩ := (hshown bodyIsB _ hrender).1 heven
  have hbound : bodyIsB.get? (.ofList "body".toList) = some "B" := by decide +kernel
  cases hbound.symm.trans hvalue
  exact ⟨hkey, heven, hsource, hstands.2 heven, hrender, hvalueShown⟩

def titleIsT : Dict String := .ofList [("title", "T")]

/-- A placeholder as the value of an attribute, written with the brace of the attribute directly before it. -/
def bracedTitle : Template where
  source := "<Card title=\x7b\x7b\x7btitle\x7d\x7d\x7d />"

/-- The placeholder of `bracedTitle` has a value, yet what it renders to is the template as it is written. -/
theorem braced_placeholder_copied :
    Spells "title".toList "title".toList ∧
    bracedTitle.source.toList = "<Card title=\x7b".toList ++
      ((Segment.slot "title".toList "title".toList).source ++ "\x7d />".toList) ∧
    titleIsT.get? "title" = some "T" ∧
    bracedTitle.render titleIsT = .ok bracedTitle.source ∧ 'T' ∉ bracedTitle.source.toList := by
  have hfilled : refusal? titleIsT.contains (segments bracedTitle.source.toList) = none := by decide +kernel
  have htext : fill titleIsT (segments bracedTitle.source.toList) = bracedTitle.source.toList := by decide +kernel
  exact ⟨spells_self (by decide), by decide, by decide +kernel, render_eq_ok.2 ⟨hfilled, htext⟩, by decide⟩

/-! ### Keys that are left open -/

theorem exists_of_unclosed_mem (h : .unclosed rest ∈ segments cs) :
    ∃ pre, cs = pre ++ '{' :: '{' :: rest ∧ Even (openRun pre) := by
  induction cs using cut_induction with
  | nil =>
    rw [segments] at h
    cases h
  | text c cs hnot ih =>
    rw [segments_text hnot] at h
    obtain ⟨pre, rfl, heven⟩ := ih (List.mem_of_ne_of_mem (by simp) h)
    refine ⟨c :: pre, rfl, ?_⟩
    rwa [openRun_cons_of_not_opens hnot]
  | braces cs heq ih =>
    rw [heq] at h
    obtain ⟨pre, rfl, heven⟩ := ih (List.mem_of_ne_of_mem (by simp) h)
    exact ⟨'{' :: '{' :: pre, rfl, (even_openRun_braces pre).2 heven⟩
  | placeholder body key after hkey ih =>
    rw [segments_placeholder hkey] at h
    obtain ⟨pre, rfl, heven⟩ := ih (List.mem_of_ne_of_mem (by simp) h)
    refine ⟨'{' :: '{' :: (body ++ '}' :: '}' :: pre), by simp, ?_⟩
    rwa [even_openRun_placeholder]
  | unclosed cs hnone hkey =>
    rw [segments_unclosed hnone hkey] at h
    cases List.mem_singleton.1 h
    exact ⟨[], rfl, Even.zero⟩

theorem exists_unclosed_mem (heven : Even (openRun pre)) (hkey : startsWithKey rest) (hnone : ¬HasClosing rest) :
    ∃ late, .unclosed late ∈ letters (pre ++ '{' :: '{' :: rest) := by
  cases reached_of_even pre rest heven with
  | cut before hcover hletters =>
    rw [letters_unclosed hnone hkey] at hletters
    refine ⟨rest, ?_⟩
    rw [hletters]
    exact List.mem_append_right _ List.mem_cons_self
  | ended before late hlate hletters =>
    refine ⟨late ++ '{' :: '{' :: rest, ?_⟩
    rw [hletters]
    exact List.mem_append_right _ List.mem_cons_self

theorem unclosed_notMem_letters (hrender : t.render bindings = .ok text) (rest : List Char) :
    .unclosed rest ∉ letters t.source.toList := fun hmem =>
  filled_of_mem_letters (refusal?_eq_none_iff.1 (render_eq_ok.1 hrender).1) hmem

/-- If no key is left open, a template renders as soon as its keys have values. -/
theorem exists_render_eq_ok (h : ∀ rest, .unclosed rest ∉ segments t.source.toList) :
    ∃ bindings text, t.render bindings = .ok text := by
  obtain ⟨bindings, hbound⟩ := exists_bindings (segments t.source.toList)
  have hnone : refusal? bindings.contains (segments t.source.toList) = none :=
    refusal?_eq_none_iff.2 (forall_filled_iff.2 ⟨hbound, h⟩)
  exact ⟨bindings, .ofList (fill bindings (segments t.source.toList)),
    render_eq_ok.2 ⟨hnone, String.toList_ofList.symm⟩⟩

/-- Directly behind double braces, a key with a blank or the end behind it and no closing before the next braces. -/
structure LeftOpen (key tail : List Char) : Prop where
  isKey : isKey key
  isBlank : tail.head?.all Text.isBlank
  opening : ∀ front back, tail = front ++ '}' :: '}' :: back → ∃ a b, front = a ++ '{' :: '{' :: b

theorem LeftOpen.opening_notMem (h : LeftOpen key tail) : '{' ∉ key := (spells_self h.isKey).opening_notMem

theorem LeftOpen.closing_notMem (h : LeftOpen key tail) : '}' ∉ key := (spells_self h.isKey).closing_notMem

theorem LeftOpen.ne_nil (h : LeftOpen key tail) : key ≠ [] := (spells_self h.isKey).ne_nil

theorem LeftOpen.startsWithKey (h : LeftOpen key tail) : startsWithKey (key ++ tail) := by
  obtain ⟨c, key', rfl⟩ := List.exists_cons_of_ne_nil h.ne_nil
  have hall : ∀ d ∈ c :: key', isKeyChar d := List.all_eq_true.1 (Bool.and_eq_true_iff.1 h.isKey).2
  have hc : isKeyChar c := hall c List.mem_cons_self
  have htrim : Text.trimStart (c :: key' ++ tail) = c :: key' ++ tail :=
    List.dropWhile_cons_of_neg (by simp [isBlank_of_isKeyChar hc])
  have htail : tail.dropWhile isKeyChar = tail := by
    cases tail with
    | nil => rfl
    | cons d tail =>
      refine List.dropWhile_cons_of_neg fun hd => ?_
      have hblank := h.isBlank
      rw [List.head?_cons, Option.all_some, isBlank_of_isKeyChar hd] at hblank
      cases hblank
  unfold Template.startsWithKey
  dsimp only
  rw [htrim, List.dropWhile_append_of_pos hall, htail, h.isBlank, List.cons_append, List.takeWhile_cons_of_pos hc]
  rfl

/-- No closing belongs to a key that is left open. -/
theorem LeftOpen.ne_placeholder {key' : List Char} (h : LeftOpen key tail) (hspells : Spells body key') :
    key ++ tail ≠ body ++ '}' :: '}' :: rest := by
  intro heq
  obtain ⟨as, hbody, htail⟩ := exists_behind h.closing_notMem heq
  obtain ⟨a, b, rfl⟩ := h.opening as rest htail
  exact hspells.opening_notMem (hbody ▸ by simp)

theorem LeftOpen.letters_braces (h : LeftOpen key tail) (hclosing : HasClosing tail) :
    letters ('{' :: '{' :: (key ++ tail)) = singles ('{' :: '{' :: key) ++ letters tail := by
  have hbraces := segments_braces (fun body rest key' hspells => h.ne_placeholder hspells)
    (.inl (hclosing.append_left key))
  rw [Template.letters_braces hbraces, letters_append (opensNothing_of_notMem h.opening_notMem)]
  rfl

theorem LeftOpen.standsAt (h : LeftOpen key tail) (hsource : t.source.toList = pre ++ '{' :: '{' :: (key ++ tail))
    (hcopied : HasClosing tail ∨ ¬Even (openRun pre)) (hrender : t.render bindings = .ok text) :
    StandsAt t.source.toList pre (singles ('{' :: '{' :: key)) tail := by
  have hended := unclosed_notMem_letters hrender
  rw [hsource] at hended ⊢
  refine Reached.standsAt ?_ fun late _ => hended _
  by_cases heven : Even (openRun pre)
  · rw [← h.letters_braces (hcopied.resolve_right (not_not.2 heven))]
    exact reached_of_even pre (key ++ tail) heven
  · exact reached_of_odd pre tail heven h.ne_nil h.opening_notMem

/-- **When a key that is left open is refused.**  A template is refused whatever the values are if and only if it has
double braces, with an even run of opening braces in front of them, behind which a key begins and nothing closes it up
to the end of the template.  If a template renders although a key in it is left open, then a closing stands somewhere
behind the key or an odd run in front of its braces, and the key is copied with its braces. -/
theorem refused_iff (t : Template) :
    ((∀ bindings, ∃ fault, t.render bindings = .error fault) ↔
      ∃ pre rest, t.source.toList = pre ++ '{' :: '{' :: rest ∧ Even (openRun pre) ∧ startsWithKey rest ∧
        ¬HasClosing rest) ∧
    ∀ pre key tail, t.source.toList = pre ++ '{' :: '{' :: (key ++ tail) → LeftOpen key tail →
      ∀ bindings text, t.render bindings = .ok text →
        (HasClosing tail ∨ ¬Even (openRun pre)) ∧
          ShownAt bindings t.source.toList text.toList pre ('{' :: '{' :: key) tail := by
  refine ⟨⟨fun h => ?_, ?_⟩, fun pre key tail hsource hopen bindings text hrender => ?_⟩
  · by_contra hnot
    have hclosed : ∀ rest, .unclosed rest ∉ segments t.source.toList := by
      intro rest hmem
      obtain ⟨pre, hsource, heven⟩ := exists_of_unclosed_mem hmem
      obtain ⟨hnone, hkey⟩ := proper_segments _ _ hmem
      exact hnot ⟨pre, rest, hsource, heven, hkey, hnone⟩
    obtain ⟨bindings, text, hok⟩ := exists_render_eq_ok hclosed
    obtain ⟨fault, hfault⟩ := h bindings
    cases hok.symm.trans hfault
  · rintro ⟨pre, rest, hsource, heven, hkey, hnone⟩ bindings
    cases hrender : t.render bindings with
    | error fault => exact ⟨fault, rfl⟩
    | ok text =>
      obtain ⟨late, hlate⟩ := exists_unclosed_mem heven hkey hnone
      exact absurd (hsource ▸ hlate) (unclosed_notMem_letters hrender late)
  · have hcopied : HasClosing tail ∨ ¬Even (openRun pre) := by
      by_contra hnot
      rw [not_or, not_not] at hnot
      have hnone : ¬HasClosing (key ++ tail) := fun h => hnot.1 (h.of_append_left hopen.closing_notMem)
      obtain ⟨late, hlate⟩ := exists_unclosed_mem hnot.2 hopen.startsWithKey hnone
      exact unclosed_notMem_letters hrender late (hsource ▸ hlate)
    have hshown := (hopen.standsAt hsource hcopied hrender).shownAt hrender
    rw [fill_singles] at hshown
    exact ⟨hcopied, hshown⟩

/-- A template with one key, which nothing closes. -/
def titleOnly : Template where
  source := "# \x7b\x7btitle"

theorem titleOnly_refused :
    titleOnly.source.toList = "# ".toList ++ '{' :: '{' :: "title".toList ∧ Even (openRun "# ".toList) ∧
    startsWithKey "title".toList ∧ ¬HasClosing "title".toList ∧
    ∀ bindings, ∃ fault, titleOnly.render bindings = .error fault := by
  have hsource : titleOnly.source.toList = "# ".toList ++ '{' :: '{' :: "title".toList := by decide
  have heven : Even (openRun "# ".toList) := by decide
  have hkey : startsWithKey "title".toList := by decide
  have hnone : ¬HasClosing "title".toList := upToClosing?_eq_none_iff.1 (by decide)
  exact ⟨hsource, heven, hkey, hnone, (refused_iff titleOnly).1.2 ⟨_, _, hsource, heven, hkey, hnone⟩⟩

/-- A key that is left open at the end of a line, and a placeholder on the next line. -/
def openTitle : Template where
  source := "\x7b\x7btitle\n\x7b\x7bbody\x7d\x7d"

/-- The key that `openTitle` leaves open is closed by the end of the placeholder behind it, and copied. -/
theorem open_key_copied :
    openTitle.source.toList = '{' :: '{' :: ("title".toList ++ "\n\x7b\x7bbody\x7d\x7d".toList) ∧
    LeftOpen "title".toList "\n\x7b\x7bbody\x7d\x7d".toList ∧
    openTitle.render bodyIsB = .ok "\x7b\x7btitle\nB" := by
  have hfilled : refusal? bodyIsB.contains (segments openTitle.source.toList) = none := by decide +kernel
  have htext : fill bodyIsB (segments openTitle.source.toList) = "\x7b\x7btitle\nB".toList := by decide +kernel
  refine ⟨by decide, ⟨by decide, by decide, fun front back heq => ?_⟩, render_eq_ok.2 ⟨hfilled, htext⟩⟩
  have hclosing : '}' ∉ "\n\x7b\x7bbody".toList := by decide
  obtain ⟨between, rfl, -⟩ := exists_behind hclosing heq
  exact ⟨['\n'], "body".toList ++ between, rfl⟩

end CapsuleCompiler.Template
