import CapsuleCompiler.Json.Record
import CapsuleCompiler.Proofs.Json.Reader

/-!
# Proofs.Json.Origin — where the parts of a value come from

Whatever text a reader is given, each part of what it makes of it is one that the reader of this part made, at the
depth that is left there, or the standard value of a field that is not written.  So what holds of every result of the
inner reader holds of the parts.
-/

namespace CapsuleCompiler.Json

variable {α β σ : Type} {cs rest : List Char} {depth : Nat}

namespace Reader

variable {reader : Reader α}

/-- There is a text for which a reader gives this value. -/
def Yields (reader : Reader α) (depth : Nat) (x : α) : Prop := ∃ cs rest, reader depth cs = .ok (x, rest)

theorem Yields.of_run {document : String} {x : α} (h : reader.run document = .ok x) : reader.Yields nesting x := by
  unfold run at h
  obtain ⟨⟨y, rest⟩, hread, h⟩ := bind_eq_ok.1 h
  dsimp only at h
  split_ifs at h
  cases h
  exact ⟨_, rest, hread⟩

theorem Yields.of_map {f : α → β} {y : β} (h : (reader.map f).Yields depth y) :
    ∃ x, reader.Yields depth x ∧ f x = y := by
  obtain ⟨cs, rest, h⟩ := h
  obtain ⟨⟨x, after⟩, hread, heq⟩ := bind_eq_ok.1 h
  cases heq
  exact ⟨x, ⟨cs, _, hread⟩, rfl⟩

theorem nested_eq_ok {inner : Nat → Except Fault α} {x : α} (h : nested inner depth = .ok x) :
    ∃ d, depth = d + 1 ∧ inner d = .ok x := by
  cases depth with
  | zero => cases h
  | succ d => exact ⟨d, rfl, h⟩

/-! ### Arrays and objects -/

theorem exists_of_mem_itemsFrom {item : List Char → Except Fault (α × List Char)} {fuel : Nat} {first : Bool}
    {xs : List α} (h : itemsFrom item fuel first cs = .ok (xs, rest)) :
    ∀ x ∈ xs, ∃ cs rest, item cs = .ok (x, rest) := by
  induction fuel generalizing first cs xs rest with
  | zero => cases h
  | succ fuel ih =>
    unfold itemsFrom at h
    obtain ⟨next, -, h⟩ := bind_eq_ok.1 h
    cases next with
    | closed after =>
      cases h
      simp
    | part cs' =>
      obtain ⟨⟨y, cs₁⟩, hitem, h⟩ := bind_eq_ok.1 h
      obtain ⟨⟨ys, cs₂⟩, hitems, h⟩ := bind_eq_ok.1 h
      cases h
      intro x hx
      rcases List.mem_cons.1 hx with rfl | hx
      · exact ⟨cs', cs₁, hitem⟩
      · exact ih hitems x hx

theorem exists_of_mem_membersFrom {item : List Char → Except Fault (α × List Char)} {fuel : Nat} {first : Bool}
    {es : List (String × α)} (h : membersFrom item fuel first cs = .ok (es, rest)) :
    ∀ e ∈ es, ∃ cs rest, item cs = .ok (e.2, rest) := by
  induction fuel generalizing first cs es rest with
  | zero => cases h
  | succ fuel ih =>
    unfold membersFrom at h
    obtain ⟨next, -, h⟩ := bind_eq_ok.1 h
    cases next with
    | closed after =>
      cases h
      simp
    | part keyed =>
      obtain ⟨behind, -, h⟩ := bind_eq_ok.1 h
      obtain ⟨⟨y, cs₁⟩, hitem, h⟩ := bind_eq_ok.1 h
      obtain ⟨⟨es', cs₂⟩, hmembers, h⟩ := bind_eq_ok.1 h
      cases h
      intro e he
      rcases List.mem_cons.1 he with rfl | he
      · exact ⟨behind, cs₁, hitem⟩
      · exact ih hmembers e he

theorem Yields.of_list {xs : List α} (h : reader.list.Yields depth xs) :
    ∃ d, depth = d + 1 ∧ ∀ x ∈ xs, reader.Yields d x := by
  obtain ⟨cs, rest, h⟩ := h
  unfold list at h
  split at h
  · obtain ⟨d, hd, h⟩ := nested_eq_ok h
    exact ⟨d, hd, exists_of_mem_itemsFrom h⟩
  · cases h

theorem Yields.of_dict {x : Dict α} (h : reader.dict.Yields depth x) :
    ∃ d, depth = d + 1 ∧ ∀ e ∈ x.entries, reader.Yields d e.2 := by
  obtain ⟨cs, rest, h⟩ := h
  unfold dict at h
  split at h
  · obtain ⟨d, hd, h⟩ := nested_eq_ok h
    obtain ⟨⟨es, after⟩, hmembers, heq⟩ := bind_eq_ok.1 h
    cases heq
    exact ⟨d, hd, fun e he => exists_of_mem_membersFrom hmembers e (Dict.mem_of_mem_entries_ofList he)⟩
  · cases h

/-! ### Numbers and values -/

theorem Yields.lt_of_natural {wanted : String} {n : Nat} (h : (natural wanted).Yields depth n) : n < 2 ^ 64 := by
  obtain ⟨cs, rest, h⟩ := h
  unfold natural at h
  split at h
  · cases h
  · split_ifs at h
    obtain ⟨⟨number, after⟩, hread, h⟩ := bind_eq_ok.1 h
    split at h
    · next heq =>
      cases h
      cases heq
      have hlt : (n : Int) < 2 ^ 64 := (Number.isWord_of_read hread).2
      omega
    · cases h
    · cases h

theorem readable_of_valueWith {inner : Option (List Char → Except Fault (Json × List Char))} {j : Json}
    (h : valueWith inner cs = .ok (j, rest)) (hfloat : j.hasFloat = false)
    (hinner : ∀ read ∈ inner, ∃ d, depth = d + 1 ∧
      ∀ cs x rest, read cs = .ok (x, rest) → x.hasFloat = false → Readable d x) : Readable depth j := by
  unfold valueWith at h
  split at h
  · cases h
  · split_ifs at h
    · obtain ⟨_, -, heq⟩ := bind_eq_ok.1 h
      cases heq
      exact .null
    · obtain ⟨_, -, heq⟩ := bind_eq_ok.1 h
      cases heq
      exact .bool true
    · obtain ⟨_, -, heq⟩ := bind_eq_ok.1 h
      cases heq
      exact .bool false
    · obtain ⟨⟨number, after⟩, hread, heq⟩ := bind_eq_ok.1 h
      cases number with
      | integer n =>
        cases heq
        exact .integer (Number.isWord_of_read hread)
      | float negative magnitude =>
        cases heq
        cases hfloat
    · obtain ⟨⟨s, after⟩, -, heq⟩ := bind_eq_ok.1 h
      cases heq
      exact .string s
    · cases inner with
      | none => cases h
      | some read =>
        obtain ⟨⟨xs, after⟩, hitems, heq⟩ := bind_eq_ok.1 h
        cases heq
        obtain ⟨d, rfl, hread⟩ := hinner read rfl
        refine .array fun x hx => ?_
        obtain ⟨cs', rest', hx'⟩ := exists_of_mem_itemsFrom hitems x hx
        rw [hasFloat, anyItemHasFloat_eq, List.any_eq_false] at hfloat
        exact hread cs' x rest' hx' (Bool.eq_false_iff.2 (hfloat x hx))
    · cases inner with
      | none => cases h
      | some read =>
        obtain ⟨⟨es, after⟩, hmembers, heq⟩ := bind_eq_ok.1 h
        cases heq
        obtain ⟨d, rfl, hread⟩ := hinner read rfl
        refine .object (Dict.ofList es).sorted fun m hm => ?_
        obtain ⟨cs', rest', hm'⟩ := exists_of_mem_membersFrom hmembers m (Dict.mem_of_mem_entries_ofList hm)
        rw [hasFloat, anyMemberHasFloat_eq, List.any_eq_false] at hfloat
        exact hread cs' m.2 rest' hm' (Bool.eq_false_iff.2 (hfloat m hm))

/-- **What is read without a float can be read again.** -/
theorem Yields.readable {j : Json} (h : value.Yields depth j) (hfloat : j.hasFloat = false) : Readable depth j := by
  obtain ⟨cs, rest, h⟩ := h
  induction depth generalizing cs j rest with
  | zero => exact readable_of_valueWith h hfloat (by simp)
  | succ d ih =>
    refine readable_of_valueWith h hfloat fun read hread => ⟨d, rfl, ?_⟩
    cases hread
    exact fun cs x rest hx hfloat => ih hfloat cs rest hx

/-! ### Alternatives -/

theorem Yields.of_choice {cases : List (String × Content α)} {other : Option α} {x : α}
    (h : (choice cases other).Yields depth x) : (∃ name, choose cases other name = .ok (.constant x)) ∨
      ∃ d name reader, depth = d + 1 ∧ choose cases other name = .ok (.value reader) ∧ reader.Yields d x := by
  obtain ⟨cs, rest, h⟩ := h
  unfold choice at h
  split at h
  · cases h
  · obtain ⟨⟨name, after⟩, -, h⟩ := bind_eq_ok.1 h
    obtain ⟨content, hcontent, h⟩ := bind_eq_ok.1 h
    cases content with
    | constant y =>
      cases h
      exact .inl ⟨name, hcontent⟩
    | value reader => cases h
  · obtain ⟨d, hd, h⟩ := nested_eq_ok h
    obtain ⟨⟨name, cs₁⟩, -, h⟩ := bind_eq_ok.1 h
    obtain ⟨content, hcontent, h⟩ := bind_eq_ok.1 h
    obtain ⟨cs₂, -, h⟩ := bind_eq_ok.1 h
    cases content with
    | constant z =>
      obtain ⟨⟨y, cs₃⟩, hread, h⟩ := bind_eq_ok.1 h
      obtain ⟨cs₄, -, heq⟩ := bind_eq_ok.1 h
      cases heq
      obtain ⟨u, -, heq⟩ := of_map ⟨cs₂, cs₃, hread⟩
      cases heq
      exact .inl ⟨name, hcontent⟩
    | value reader =>
      obtain ⟨⟨y, cs₃⟩, hread, h⟩ := bind_eq_ok.1 h
      obtain ⟨cs₄, -, heq⟩ := bind_eq_ok.1 h
      cases heq
      exact .inr ⟨d, name, reader, hd, hcontent, cs₂, cs₃, hread⟩
  · cases h

end Reader

/-! ### Records -/

namespace Fields

/-- Each value of a record is one that the reader of its field gives, or the one that stands for a field left out. -/
def Origin (depth : Nat) : {σ : Type} → Fields σ → σ → Prop
  | _, done, _ => True
  | _, field _ reader absent rest, x => (reader.Yields depth x.1 ∨ absent.inObject? = some x.1) ∧ rest.Origin depth x.2

/-- The same of the values read so far. -/
def DraftOrigin (depth : Nat) : {σ : Type} → (fs : Fields σ) → fs.Draft → Prop
  | _, done, _ => True
  | _, field _ reader _ rest, draft => (∀ x ∈ draft.1, reader.Yields depth x) ∧ rest.DraftOrigin depth draft.2

theorem draftOrigin_blank (fs : Fields σ) : fs.DraftOrigin depth fs.blank := by
  induction fs with
  | done => trivial
  | field name reader absent rest ih => exact ⟨by simp [blank], ih⟩

theorem DraftOrigin.accept {key : String} {fs : Fields σ} {draft draft' : fs.Draft} (h : fs.DraftOrigin depth draft)
    (haccept : fs.accept depth key cs draft = .ok (draft', rest)) : fs.DraftOrigin depth draft' := by
  induction fs generalizing cs rest with
  | done => trivial
  | field name reader absent later ih =>
    rw [Fields.accept] at haccept
    split_ifs at haccept
    · split at haccept
      · cases haccept
      · obtain ⟨behind, -, haccept⟩ := bind_eq_ok.1 haccept
        obtain ⟨⟨x, after⟩, hread, heq⟩ := bind_eq_ok.1 haccept
        cases heq
        refine ⟨fun y hy => ?_, h.2⟩
        cases hy
        exact ⟨behind, _, hread⟩
    · obtain ⟨⟨drafts', after⟩, hlater, heq⟩ := bind_eq_ok.1 haccept
      cases heq
      exact ⟨h.1, ih h.2 hlater⟩

theorem DraftOrigin.close {fs : Fields σ} {draft : fs.Draft} {x : σ} (h : fs.DraftOrigin depth draft)
    (hclose : fs.close draft = .ok x) : fs.Origin depth x := by
  induction fs with
  | done => trivial
  | field name reader absent later ih =>
    rw [Fields.close] at hclose
    split at hclose
    · cases hclose
    · next y hy =>
      obtain ⟨ys, hlater, heq⟩ := bind_eq_ok.1 hclose
      cases heq
      refine ⟨?_, ih h.2 hlater⟩
      cases hdraft : draft.1 with
      | some z =>
        rw [hdraft] at hy
        cases hy
        exact .inl (h.1 _ hdraft)
      | none =>
        rw [hdraft] at hy
        exact .inr hy

theorem origin_of_readMembers {fs : Fields σ} {draft : fs.Draft} {fuel : Nat} {first : Bool} {x : σ}
    (h : fs.DraftOrigin depth draft) (hread : fs.readMembers depth fuel first draft cs = .ok (x, rest)) :
    fs.Origin depth x := by
  induction fuel generalizing first cs draft with
  | zero => cases hread
  | succ fuel ih =>
    unfold readMembers at hread
    obtain ⟨next, -, hread⟩ := bind_eq_ok.1 hread
    cases next with
    | closed after =>
      obtain ⟨y, hclose, heq⟩ := bind_eq_ok.1 hread
      cases heq
      exact h.close hclose
    | part keyed =>
      obtain ⟨⟨draft', after⟩, haccept, hread⟩ := bind_eq_ok.1 hread
      exact ih (h.accept haccept) hread

theorem Absent.inObject?_of_inArray? {absent : Absent α} {x : α} (h : absent.inArray? = some x) :
    absent.inObject? = some x := by
  cases absent with
  | anywhere y => exact h
  | fault => cases h
  | inObject y => cases h

theorem origin_of_fill {tooShort : Nat → Fault} {fs : Fields σ} {index : Nat} {x : σ}
    (h : fs.fill tooShort index = .ok x) : fs.Origin depth x := by
  induction fs generalizing index with
  | done => trivial
  | field name reader absent later ih =>
    unfold fill at h
    split at h
    · cases h
    · next y hy =>
      obtain ⟨ys, hlater, heq⟩ := bind_eq_ok.1 h
      cases heq
      exact ⟨.inr (Absent.inObject?_of_inArray? hy), ih hlater⟩

theorem origin_of_readItems {tooShort : Nat → Fault} {fs : Fields σ} {index : Nat} {x : σ}
    (h : fs.readItems tooShort depth index cs = .ok (x, rest)) : fs.Origin depth x := by
  induction fs generalizing index cs with
  | done => trivial
  | field name reader absent later ih =>
    unfold readItems at h
    obtain ⟨next, -, h⟩ := bind_eq_ok.1 h
    cases next with
    | closed after =>
      obtain ⟨y, hfill, heq⟩ := bind_eq_ok.1 h
      cases heq
      exact origin_of_fill hfill
    | part cs' =>
      obtain ⟨⟨y, cs₁⟩, hread, h⟩ := bind_eq_ok.1 h
      obtain ⟨⟨ys, cs₂⟩, hlater, h⟩ := bind_eq_ok.1 h
      cases h
      exact ⟨.inl ⟨cs', cs₁, hread⟩, ih hlater⟩

end Fields

/-- The values of a record, in whichever form it is written. -/
theorem Reader.Yields.of_record {name : String} {fs : Fields σ} {x : σ} (h : (record name fs).Yields depth x) :
    ∃ d, depth = d + 1 ∧ fs.Origin d x := by
  obtain ⟨cs, rest, h⟩ := h
  unfold record at h
  split at h
  · obtain ⟨d, hd, h⟩ := nested_eq_ok h
    exact ⟨d, hd, Fields.origin_of_readItems h⟩
  · obtain ⟨d, hd, h⟩ := nested_eq_ok h
    exact ⟨d, hd, Fields.origin_of_readMembers fs.draftOrigin_blank h⟩
  · cases h

end CapsuleCompiler.Json
