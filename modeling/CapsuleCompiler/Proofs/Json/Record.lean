import CapsuleCompiler.Json.Record
import CapsuleCompiler.Proofs.Json.Reader

/-!
# Proofs.Json.Record — printed records and alternatives are read back

A record is printed as an object that has members for its fields, in their order; a field may be left out if it then
reads as the value that it has (`Written`).  The reader of a record goes through the members one by one
(`Accepts`), and fields with names of their own do not get in each other's way (`Accepts.under`).
-/

namespace CapsuleCompiler.Json

variable {α σ : Type} {depth : Nat} {rest : List Char} {j : Json} {x : α}

namespace Fields

def names : {σ : Type} → Fields σ → List String
  | _, done => []
  | _, field name _ _ rest => name :: rest.names

/-- Members that say what the values of a record are. -/
inductive Written (depth : Nat) : {σ : Type} → Fields σ → σ → List (String × Json) → Prop
  | done : Written depth done () []
  | present {α β : Type} {name : String} {reader : Reader α} {absent : Absent α} {later : Fields β} {x : α} {xs : β}
      {j : Json} {ms : List (String × Json)} (hx : ReadsBack reader depth j x) (h : Written depth later xs ms) :
      Written depth (field name reader absent later) (x, xs) ((name, j) :: ms)
  | left {α β : Type} {name : String} {reader : Reader α} {absent : Absent α} {later : Fields β} {x : α} {xs : β}
      {ms : List (String × Json)} (hx : absent.inObject? = some x) (h : Written depth later xs ms) :
      Written depth (field name reader absent later) (x, xs) ms

/-- What members that are read one after the other add to the values read so far. -/
inductive Accepts (depth : Nat) (fs : Fields σ) : fs.Draft → List (String × Json) → fs.Draft → Prop
  | nil {draft : fs.Draft} : Accepts depth fs draft [] draft
  | cons {draft draft' draft'' : fs.Draft} {key : String} {j : Json} {ms : List (String × Json)}
      (hfirst : ∀ rest, Ended rest → fs.accept depth key (':' :: (chars j ++ rest)) draft = .ok (draft', rest))
      (h : Accepts depth fs draft' ms draft'') : Accepts depth fs draft ((key, j) :: ms) draft''

variable {fs : Fields σ} {ms : List (String × Json)}

section Field

variable {β : Type} {name key : String} {reader : Reader α} {absent : Absent α} {later : Fields β}
  {value : Option α} {cs : List Char}

theorem accept_field_of_ne {draft draft' : later.Draft} (h : key ≠ name)
    (hlater : later.accept depth key cs draft = .ok (draft', rest)) :
    (field name reader absent later).accept depth key cs (value, draft) = .ok ((value, draft'), rest) :=
  (if_neg h).trans (bind_eq_ok.2 ⟨_, hlater, rfl⟩)

theorem accept_field_self {draft : later.Draft} (hx : reader depth cs = .ok (x, rest)) :
    (field name reader absent later).accept depth name (':' :: cs) (none, draft) = .ok ((some x, draft), rest) :=
  (if_pos rfl).trans (bind_eq_ok.2 ⟨_, rfl, bind_eq_ok.2 ⟨_, hx, rfl⟩⟩)

theorem close_field {draft : (field name reader absent later).Draft} {xs : β}
    (h : draft.1.or absent.inObject? = some x) (hlater : later.close draft.2 = .ok xs) :
    (field name reader absent later).close draft = .ok (x, xs) := by
  rw [close, h]
  exact bind_eq_ok.2 ⟨_, hlater, rfl⟩

end Field

/-- Members with other names pass a field by. -/
theorem Accepts.under {draft draft' : fs.Draft} (h : Accepts depth fs draft ms draft') {name : String}
    (hms : ∀ m ∈ ms, m.1 ≠ name) (reader : Reader α) (absent : Absent α) (value : Option α) :
    Accepts depth (field name reader absent fs) (value, draft) ms (value, draft') := by
  induction h with
  | nil => exact .nil
  | @cons draft draft' draft'' key j ms hfirst _ ih =>
    have hkey : key ≠ name := hms (key, j) List.mem_cons_self
    refine .cons (fun rest hrest => ?_) (ih fun m hm => hms m (List.mem_cons_of_mem _ hm))
    exact accept_field_of_ne hkey (hfirst rest hrest)

theorem Written.mem_names {xs : σ} (h : Written depth fs xs ms) : ∀ m ∈ ms, m.1 ∈ fs.names := by
  induction h with
  | done => simp
  | present _ _ ih =>
    intro m hm
    rcases List.mem_cons.1 hm with rfl | hm
    · exact List.mem_cons_self
    · exact List.mem_cons_of_mem _ (ih m hm)
  | left _ _ ih => exact fun m hm => List.mem_cons_of_mem _ (ih m hm)

theorem Written.ne_of_notMem {xs : σ} (h : Written depth fs xs ms) {name : String} (hname : name ∉ fs.names) :
    ∀ m ∈ ms, m.1 ≠ name := by
  rintro m hm rfl
  exact hname (h.mem_names m hm)

/-- Behind all members the values of the record are there. -/
theorem Written.exists_accepts {xs : σ} (h : Written depth fs xs ms) (hnames : fs.names.Nodup) :
    ∃ draft, Accepts depth fs fs.blank ms draft ∧ fs.close draft = .ok xs := by
  induction h with
  | done => exact ⟨(), .nil, rfl⟩
  | @present α β name reader absent later x xs j ms hx hlater ih =>
    obtain ⟨hname, hnodup⟩ := List.nodup_cons.1 hnames
    obtain ⟨draft, haccepts, hclose⟩ := ih hnodup
    have hother := hlater.ne_of_notMem hname
    refine ⟨(some x, draft), .cons (fun rest hrest => ?_) (haccepts.under hother reader absent (some x)), ?_⟩
    · exact accept_field_self (hx rest hrest)
    · exact close_field rfl hclose
  | @left α β name reader absent later x xs ms hx hlater ih =>
    obtain ⟨hname, hnodup⟩ := List.nodup_cons.1 hnames
    obtain ⟨draft, haccepts, hclose⟩ := ih hnodup
    have hother := hlater.ne_of_notMem hname
    exact ⟨(none, draft), haccepts.under hother reader absent none, close_field hx hclose⟩

theorem readMembers_memberChars {draft draft' : fs.Draft} (h : Accepts depth fs draft ms draft') {xs : σ}
    (hclose : fs.close draft' = .ok xs) {fuel : Nat} (hfuel : ms.length < fuel) (first : Bool) (rest : List Char) :
    fs.readMembers depth fuel first draft (memberChars first ms ++ rest) = .ok (xs, rest) := by
  induction h generalizing fuel first with
  | nil =>
    obtain ⟨fuel, rfl⟩ := Nat.exists_eq_succ_of_ne_zero (Nat.ne_zero_of_lt hfuel)
    exact bind_eq_ok.2 ⟨_, nextKey_memberChars_nil first rest, bind_eq_ok.2 ⟨_, hclose, rfl⟩⟩
  | @cons draft draft' draft'' key j ms hfirst _ ih =>
    obtain ⟨fuel, rfl⟩ := Nat.exists_eq_succ_of_ne_zero (Nat.ne_zero_of_lt hfuel)
    have hnext := ih hclose (Nat.lt_of_succ_lt_succ hfuel) false
    refine bind_eq_ok.2 ⟨_, nextKey_memberChars_cons first key j ms rest, ?_⟩
    exact bind_eq_ok.2 ⟨_, hfirst _ (ended_memberChars _ _), hnext⟩

end Fields

namespace Reader

/-- **A printed record is read back**, if no two of its fields have the same name. -/
theorem readsBack_record {fs : Fields σ} {xs : σ} {ms : List (String × Json)} (h : fs.Written depth xs ms)
    (hnames : fs.names.Nodup) (name : String) : ReadsBack (record name fs) (depth + 1) (.object ms) xs := by
  intro rest _
  obtain ⟨draft, haccepts, hclose⟩ := h.exists_accepts hnames
  have hfuel : ms.length < (memberChars true ms ++ rest).length + 1 := by
    have hle := length_le_length_memberChars true ms
    rw [List.length_append]
    omega
  unfold record
  rw [skipSpace_chars, chars]
  exact Fields.readMembers_memberChars haccepts hclose hfuel true rest

/-! ### Alternatives -/

variable {cases : List (String × Content α)} {other : Option α} {name : String}

theorem readsBack_constant (h : choose cases other name = .ok (.constant x)) (depth : Nat) :
    ReadsBack (choice cases other) depth (.string name) x := by
  intro rest _
  unfold choice
  rw [skipSpace_chars, chars, stringChars_append]
  exact bind_eq_ok.2 ⟨_, stringBody_bodyChars name rest, bind_eq_ok.2 ⟨_, h, rfl⟩⟩

theorem readsBack_variant {reader : Reader α} (h : choose cases other name = .ok (.value reader))
    (hx : ReadsBack reader depth j x) : ReadsBack (choice cases other) (depth + 1) (.object [(name, j)]) x := by
  intro rest _
  have hbody := stringBody_bodyChars name (':' :: (chars j ++ '\x7d' :: rest))
  have hread := hx ('\x7d' :: rest) (by rintro c ⟨⟩; simp)
  have hchars : chars (.object [(name, j)]) ++ rest =
      '\x7b' :: '"' :: (bodyChars name.toList ++ '"' :: ':' :: (chars j ++ '\x7d' :: rest)) := by
    rw [chars, memberChars, memberChars, if_pos rfl]
    simp [stringChars]
  unfold choice
  rw [skipSpace_chars, hchars]
  refine bind_eq_ok.2 ⟨_, hbody, bind_eq_ok.2 ⟨_, h, bind_eq_ok.2 ⟨_, rfl, ?_⟩⟩⟩
  exact bind_eq_ok.2 ⟨_, hread, rfl⟩

/-- A name that is listed is that of its alternative. -/
theorem choose_of_lookup {content : Content α} (h : cases.lookup name = some content) (other : Option α) :
    choose cases other name = .ok content := by
  unfold choose
  rw [h]

theorem readsBack_constants {cases : List (String × α)} (h : cases.lookup name = some x) (depth : Nat) :
    ReadsBack (constants cases) depth (.string name) x := by
  have hlookup : (cases.map fun c => (c.1, Content.constant c.2)).lookup name = some (.constant x) := by
    obtain ⟨before, after, rfl, hbefore⟩ := List.lookup_eq_some_iff.1 h
    refine List.lookup_eq_some_iff.2 ⟨before.map _, after.map _, List.map_append, fun e he => ?_⟩
    obtain ⟨c, hc, rfl⟩ := List.mem_map.1 he
    exact hbefore c hc
  exact readsBack_constant (choose_of_lookup hlookup none) depth

theorem mem_of_choose {content : Content α} (h : choose cases none name = .ok content) : (name, content) ∈ cases := by
  unfold choose at h
  cases hlookup : cases.lookup name with
  | none => simp [hlookup] at h
  | some found =>
    rw [hlookup] at h
    cases h
    obtain ⟨before, after, heq, -⟩ := List.lookup_eq_some_iff.1 hlookup
    exact heq ▸ by simp

end Reader

end CapsuleCompiler.Json
