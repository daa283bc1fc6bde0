import CapsuleCompiler.Proofs.Template.Segments

/-!
# Proofs.Generation.Rendering — templates that are put together from texts and slots

A text in which no double brace begins is a segment for each of its characters (`segments_append`), and a slot is one
placeholder (`segments_placeholder`).  A template that is made of such parts therefore renders whenever the keys of its slots
have values, to the same texts with the values between them (`render_parts`).
-/

namespace CapsuleCompiler.Template

variable {cs key rest : List Char} {bindings : Dict String}

/-! ### Texts -/

/-- Whether no double brace begins in a text, whatever follows it. -/
def opensNothing : List Char → Bool
  | [] => true
  | [c] => c ≠ '{'
  | c :: d :: cs => !(c == '{' && d == '{') && opensNothing (d :: cs)

theorem segments_append (h : opensNothing cs) (rest : List Char) :
    segments (cs ++ rest) = cs.map (fun c => .text [c]) ++ segments rest := by
  induction cs with
  | nil => rfl
  | cons c cs ih =>
    cases cs with
    | nil =>
      have hc : c ≠ '{' := by simpa [opensNothing] using h
      cases rest with
      | nil => rw [List.append_nil, segments, segments, List.append_nil, List.map_singleton]
      | cons d rest =>
        rw [List.singleton_append, segments, if_neg fun hbrace => hc hbrace.1]
        rfl
    | cons d cs =>
      rw [opensNothing, Bool.and_eq_true] at h
      have hc : ¬(c = '{' ∧ d = '{') := by
        rintro ⟨rfl, rfl⟩
        exact absurd h.1 (by decide)
      rw [List.cons_append, List.cons_append, segments, if_neg hc, ← List.cons_append, ih h.2]
      rfl

/-! ### Rendering -/

theorem renderSegments_append (cs : List Char) (segs : List Segment) :
    renderSegments bindings (cs.map (fun c => .text [c]) ++ segs) =
      (renderSegments bindings segs).map (cs ++ ·) := by
  induction cs with
  | nil => cases h : renderSegments bindings segs <;> simp [h, Except.map]
  | cons c cs ih =>
    rw [List.map_cons, List.cons_append, renderSegments, ih]
    cases renderSegments bindings segs <;> rfl

theorem renderSegments_slot {value : String} (h : bindings.get? (.ofList key) = some value) (spelling : List Char)
    (segs : List Segment) :
    renderSegments bindings (.slot key spelling :: segs) =
      (renderSegments bindings segs).map (value.toList ++ ·) := by
  rw [renderSegments, h]
  cases renderSegments bindings segs <;> rfl

/-! ### Parts -/

/-- What a template is put together from. -/
inductive Part
  | text (text : String)
  | slot (key : String)

namespace Part

/-- How a part is written in a template. -/
def source : Part → String
  | text t => t
  | slot key => Template.slot key

/-- Whether a part is read back as it was meant. -/
def fits : Part → Bool
  | text t => opensNothing t.toList
  | slot key => isKey key.toList

/-- What stands for a part in the rendered text. -/
def filled (bindings : Dict String) : Part → String
  | text t => t
  | slot key => (bindings.get? key).getD ""

/-- Whether a part has a value, if it needs one. -/
def bound (bindings : Dict String) : Part → Bool
  | text _ => true
  | slot key => bindings.contains key

end Part

theorem toList_slot (key : String) : (slot key).toList = '{' :: '{' :: (key.toList ++ ['}', '}']) := by
  unfold slot
  rw [String.toList_append, String.toList_append]
  rfl

theorem renderSegments_parts {parts : List Part} (hfits : parts.all Part.fits)
    (hbound : parts.all (Part.bound bindings)) :
    renderSegments bindings (segments (parts.flatMap fun part => part.source.toList)) =
      .ok (parts.flatMap fun part => (part.filled bindings).toList) := by
  induction parts with
  | nil => rw [List.flatMap_nil, segments, renderSegments, List.flatMap_nil]
  | cons part parts ih =>
    rw [List.all_cons, Bool.and_eq_true] at hfits hbound
    have ih := ih hfits.2 hbound.2
    rw [List.flatMap_cons, List.flatMap_cons]
    cases part with
    | text t =>
      rw [Part.source, segments_append hfits.1, renderSegments_append, ih]
      rfl
    | slot key =>
      obtain ⟨value, hvalue⟩ := Option.isSome_iff_exists.1 hbound.1
      rw [Part.source, toList_slot, List.cons_append, List.cons_append, List.append_assoc]
      rw [List.cons_append, List.cons_append, List.nil_append, segments_placeholder (spells_self hfits.1),
        renderSegments_slot (by rwa [String.ofList_toList]), ih, Part.filled, hvalue]
      rfl

/-- A template whose slots have values renders to its texts with the values between them. -/
theorem render_parts {t : Template} {parts : List Part} (hsource : t.source = String.join (parts.map Part.source))
    (hfits : parts.all Part.fits) (hbound : parts.all (Part.bound bindings)) :
    t.render bindings = .ok (String.join (parts.map (Part.filled bindings))) := by
  rw [render, hsource, String.toList_join, List.flatMap_map, renderSegments_parts hfits hbound]
  refine congrArg Except.ok (String.toList_inj.1 ?_)
  rw [String.toList_ofList, String.toList_join, List.flatMap_map]

/-! ### Built-in templates -/

def componentParts : List Part := [
  .slot "prelude", .text "export default function ", .slot "symbol", .text "() \x7b\n", .slot "state",
  .text "  return (\n", .slot "markup", .text "\n", .text "  )\n", .text "\x7d\n"]

def pageParts : List Part := [
  .slot "prelude", .text "export default function ", .slot "symbol", .text "Page() \x7b\n", .slot "state",
  .text "  return (\n", .text "    <main className=\"capsula-page\">\n",
  .text "      <h1 className=\"capsula-title\">", .slot "title", .text "</h1>\n",
  .text "      <div className=\"capsula-container\">\n", .slot "markup", .text "\n", .text "      </div>\n",
  .text "    </main>\n", .text "  )\n", .text "\x7d\n"]

def readmeParts : List Part := [
  .text "# ", .slot "title", .text "\n\n", .slot "description", .text "\n\n",
  .text "Generated by ", .slot "compiler", .text ".\n\n", .text "## Setup\n\n",
  .text "1. Install dependencies:\n\n   ```bash\n", .slot "install", .text "\n   ```\n\n",
  .text "2. Build for production:\n\n   ```bash\n", .slot "build", .text "\n   ```\n\n",
  .text "3. Run the application:\n\n   ```bash\n", .slot "run", .text "\n   ```\n\n",
  .text "## Capsule modules\n\n", .slot "modules", .text "\n"]

theorem source_readme : readme.source = String.join (readmeParts.map Part.source) := rfl

end CapsuleCompiler.Template
