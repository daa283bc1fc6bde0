import CapsuleCompiler.Proofs.Generation.MainFile
import CapsuleCompiler.Proofs.Markup.EscapedText
import CapsuleCompiler.Proofs.Text.Content

/-!
# Proofs.Generation.Title — the title of a page

The title of a composition whose name is not blank is the trimmed name, escaped.  So it is text throughout, and whoever
reads the references in it reads the trimmed name; two names have one title exactly if they are trimmed to one text
(`titleOf_eq_iff`).  In a page the title stands in its heading, and the text of the heading ends where the title does
(`exists_heading`).
-/

namespace CapsuleCompiler

variable {name other : String} {plan : Plan} {shape : Shape}

namespace Plan

theorem toList_titleOf (h : ¬Text.blank name.toList) :
    (titleOf name).toList = Markup.escape (Text.trim name.toList) := by
  unfold titleOf
  split
  · next hnil => exact absurd (Text.trim_eq_nil_iff.1 hnil) h
  · next c cs hcons => rw [String.toList_ofList, hcons]

theorem titleOf_eq_iff (h : ¬Text.blank name.toList) (hother : ¬Text.blank other.toList) :
    titleOf other = titleOf name ↔ Text.trim other.toList = Text.trim name.toList := by
  rw [← String.toList_inj, toList_titleOf h, toList_titleOf hother]
  exact Markup.escape_injective.eq_iff

end Plan

namespace Generator

/-- The heading of a page, apart from what stands around it. -/
theorem opening_eq (plan : Plan) (hshape : shape ≠ .component) : opening plan shape =
    "  return (\n" ++ "    <main className=\"capsula-page\">\n" ++ "      " ++ "<h1 className=\"capsula-title\">" ++
      plan.title ++ "</h1>" ++ "\n" ++ "      <div className=\"capsula-container\">\n" := by
  have hpage : opening plan shape = "  return (\n" ++ "    <main className=\"capsula-page\">\n" ++
      "      <h1 className=\"capsula-title\">" ++ plan.title ++ "</h1>\n" ++
      "      <div className=\"capsula-container\">\n" := by
    cases shape with
    | component => exact absurd rfl hshape
    | page | application => rfl
  have hopen : "      <h1 className=\"capsula-title\">" = "      " ++ "<h1 className=\"capsula-title\">" := rfl
  have hclose : "</h1>\n" = "</h1>" ++ "\n" := rfl
  rw [hpage, hopen, hclose]
  simp only [String.append_assoc]

/-- The title is the whole text of a heading, if no character in it begins a tag or an expression. -/
theorem exists_heading (versions : PackageVersions) (hshape : shape ≠ .component)
    (htitle : ∀ c ∈ plan.title.toList, ¬Markup.isDelimiter c) : ∃ front back,
    (standard versions).primaryText plan shape =
      .ok (front ++ "<h1 className=\"capsula-title\">" ++ plan.title ++ "</h1>" ++ back) ∧
    Markup.leadingText (plan.title ++ "</h1>" ++ back).toList = plan.title.toList := by
  have hends (back : String) : Markup.leadingText (plan.title ++ "</h1>" ++ back).toList = plan.title.toList := by
    rw [String.toList_append, String.toList_append, List.append_assoc]
    exact Markup.leadingText_append_cons htitle (by decide) _
  refine ⟨plan.prelude (furtherImports shape) ++ "export default function " ++ plan.functionName shape ++ "() \x7b\n" ++
    plan.stateBlock ++ "  return (\n" ++ "    <main className=\"capsula-page\">\n" ++ "      ",
    "\n" ++ "      <div className=\"capsula-container\">\n" ++ markup plan shape ++ closing shape, ?_, hends _⟩
  rw [primaryText_eq, opening_eq plan hshape]
  simp only [String.append_assoc]

end Generator

namespace Compiler

/-- **Titles.**  If the name of a composition is not blank, no character of its title begins or ends a tag or an
expression, and every ampersand begins one of the references of escaping.  Reading these references gives the trimmed
name, whatever other references the reader knows; so two names have one title exactly if they are trimmed to one text.
With the built-in templates the title is the whole text of the heading of a page. -/
theorem title_stays_text (h : ¬Text.blank name.toList) :
    Markup.Escaped (Plan.titleOf name).toList ∧
    Markup.unescape (Plan.titleOf name).toList = Text.trim name.toList ∧
    (∀ names, Markup.KnowsEscapes names →
      Markup.decode names (Plan.titleOf name).toList = Text.trim name.toList) ∧
    (∀ other : String, ¬Text.blank other.toList →
      (Plan.titleOf other = Plan.titleOf name ↔ Text.trim other.toList = Text.trim name.toList)) ∧
    ∀ (catalog : Catalog) (rule : ReferenceRule) (versions : PackageVersions) (c : Composition) (shape : Shape)
      (timing : Timing) (a : Artifact), c.name = name → shape ≠ .component →
      (Compiler.mk catalog rule (.standard versions)).run c shape timing = .ok a → ∃ front back,
        a.primary? =
          some (front ++ "<h1 className=\"capsula-title\">" ++ Plan.titleOf name ++ "</h1>" ++ back) ∧
        Markup.leadingText (Plan.titleOf name ++ "</h1>" ++ back).toList = (Plan.titleOf name).toList := by
  have hescaped : Markup.Escaped (Plan.titleOf name).toList := by
    rw [Plan.toList_titleOf h]
    exact Markup.escaped_escape _
  have hread {read} (hread : Markup.ReadsEscapes read) : read (Plan.titleOf name).toList = Text.trim name.toList := by
    rw [Plan.toList_titleOf h]
    exact hread.read_escape _
  refine ⟨hescaped, hread Markup.readsEscapes_unescape, fun names hnames => hread (Markup.readsEscapes_decode hnames),
    fun other => Plan.titleOf_eq_iff h, ?_⟩
  rintro catalog rule versions c shape timing a rfl hshape hrun
  obtain ⟨plan, text, -, hplan, htext, hfile⟩ := exists_plan_of_run hrun
  obtain ⟨-, -, -, -, htitle⟩ := Plan.ofValidation_eq_ok_iff.1 hplan
  rw [← htitle] at hescaped ⊢
  obtain ⟨front, back, hmain, hends⟩ := Generator.exists_heading versions hshape hescaped.delimiters
  refine ⟨front, back, ?_, hends⟩
  rw [hfile]
  exact congrArg some (Except.ok.inj (htext.symm.trans hmain))

/-- An empty composition whose name has characters of markup, texts like references, and blanks at its ends. -/
def markedUp : Composition := ⟨" R&D &lt;b&gt; <b>\x7bx\x7d&#123; ", none, [], []⟩

theorem title_stays_text_markedUp : ∃ a front back,
    ¬Text.blank markedUp.name.toList ∧ (ofConfig (.ofList []) .standard).run markedUp .page ⟨0, ""⟩ = .ok a ∧
      Plan.titleOf markedUp.name = "R&amp;D &amp;lt;b&amp;gt; &lt;b&gt;&#123;x&#125;&amp;#123;" ∧
      Markup.decode Markup.basicNames (Plan.titleOf markedUp.name).toList =
        "R&D &lt;b&gt; <b>\x7bx\x7d&#123;".toList ∧
      Plan.titleOf "R&D <b> <b>\x7bx\x7d\x7b" ≠ Plan.titleOf markedUp.name ∧
      a.primary? =
        some (front ++ "<h1 className=\"capsula-title\">" ++ Plan.titleOf markedUp.name ++ "</h1>" ++ back) := by
  have hname : ¬Text.blank markedUp.name.toList := by decide
  obtain ⟨a, ha⟩ : ∃ a, (ofConfig (.ofList []) .standard).run markedUp .page ⟨0, ""⟩ = .ok a :=
    run_mainFile_isOk rfl (by decide +kernel) (by decide)
  obtain ⟨-, -, hread, hdistinct, hpage⟩ := title_stays_text hname
  obtain ⟨front, back, hfile, -⟩ := hpage _ _ _ _ _ _ _ rfl (by decide) ha
  have hnames : Markup.KnowsEscapes Markup.basicNames := ⟨by decide, by decide, by decide⟩
  have htrim : Text.trim markedUp.name.toList = "R&D &lt;b&gt; <b>\x7bx\x7d&#123;".toList := by decide
  refine ⟨a, front, back, hname, ha, by decide +kernel, (hread _ hnames).trans htrim, fun heq => ?_, hfile⟩
  have hsame := (hdistinct _ (by decide)).1 heq
  exact absurd hsame (by decide)

end Compiler

end CapsuleCompiler
