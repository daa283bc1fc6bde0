import CapsuleCompiler.Json.Reader
import CapsuleCompiler.Proofs.Json.Integers

/-!
# Proofs.Json.Reader — a printed value is read back

A reader takes what is printed for a value off any text in which a value may end there (`ReadsBack`).  This holds of the
readers of scalars, and of those of arrays and dictionaries if it holds of the readers of their parts.  The reader of
values of any type takes back the values that a text can hold (`Readable`): their integers have 64 bits, their members
stand in the order of their keys, and no more brackets open in them than may.
-/

namespace CapsuleCompiler.Json

variable {α β : Type} {cs rest : List Char} {c : Char} {depth : Nat} {j : Json}

/-! ### Blanks -/

theorem skipSpace_cons_of_not (h : isSpace c = false) (cs : List Char) : skipSpace (c :: cs) = c :: cs := by
  simp [skipSpace, h]

theorem isSpace_eq_false_of_kindOf? {k : Kind} (h : kindOf? c = some k) : isSpace c = false := by
  by_contra hspace
  simp only [Bool.not_eq_false, isSpace, Bool.or_eq_true, beq_iff_eq] at hspace
  rcases hspace with ((rfl | rfl) | rfl) | rfl <;> cases h

theorem exists_chars_append_eq_cons (j : Json) (rest : List Char) :
    ∃ c cs, chars j ++ rest = c :: cs ∧ kindOf? c = some j.kind := by
  obtain ⟨c, hhead, hkind⟩ := head?_chars j rest
  obtain ⟨cs, hcs⟩ := List.head?_eq_some_iff.1 hhead
  exact ⟨c, cs, hcs, hkind⟩

/-- No blanks stand before a printed value. -/
theorem skipSpace_chars (j : Json) (rest : List Char) : skipSpace (chars j ++ rest) = chars j ++ rest := by
  obtain ⟨c, cs, hcs, hkind⟩ := exists_chars_append_eq_cons j rest
  rw [hcs]
  exact skipSpace_cons_of_not (isSpace_eq_false_of_kindOf? hkind) cs

/-! ### Scalars -/

/-- What is printed for a value, with whatever may stand behind it, is read as this value. -/
def ReadsBack (reader : Reader α) (depth : Nat) (printed : Json) (x : α) : Prop :=
  ∀ rest, Ended rest → reader depth (chars printed ++ rest) = .ok (x, rest)

namespace Reader

variable {reader : Reader α} {x : α}

theorem readsBack_map {f : α → β} (h : ReadsBack reader depth j x) : ReadsBack (reader.map f) depth j (f x) := by
  intro rest hrest
  unfold map
  rw [h rest hrest]
  rfl

theorem readsBack_string (depth : Nat) (s : String) : ReadsBack string depth (.string s) s := by
  intro rest _
  have hbody := stringBody_bodyChars s rest
  unfold string
  rw [skipSpace_chars, chars, stringChars_append]
  exact hbody

theorem readsBack_bool (depth : Nat) (b : Bool) : ReadsBack bool depth (.bool b) b := by
  intro rest _
  unfold bool
  rw [skipSpace_chars]
  cases b <;> rfl

theorem readsBack_natural {n : Nat} (h : n < 2 ^ 64) (wanted : String) (depth : Nat) :
    ReadsBack (natural wanted) depth (.integer n) n := by
  intro rest hrest
  have hread : Number.read (integerChars n ++ rest) = .ok (.integer n, rest) :=
    Number.read_integerChars ⟨by omega, by omega⟩ hrest
  obtain ⟨c, cs, hcs, hc⟩ := exists_integerChars_append_eq_cons n rest
  unfold natural
  rw [skipSpace_chars, chars]
  rw [hcs] at hread ⊢
  dsimp only
  rw [if_pos (by simpa using hc), hread]
  rfl

theorem readsBack_optional (h : ReadsBack reader depth j x) (hnull : j.kind ≠ .null) :
    ReadsBack reader.optional depth j (some x) := by
  intro rest hrest
  obtain ⟨c, cs, hcs, hkind⟩ := exists_chars_append_eq_cons j rest
  unfold optional
  rw [skipSpace_chars]
  split
  · next heq =>
    cases hcs.symm.trans heq
    exact absurd (Option.some.inj hkind).symm hnull
  · rw [h rest hrest]
    rfl

end Reader

/-! ### Arrays and objects -/

theorem ended_itemChars (xs : List Json) (rest : List Char) : Ended (itemChars false xs ++ rest) := by
  cases xs <;> rw [itemChars] <;> rintro c ⟨⟩ <;> simp

theorem ended_memberChars (ms : List (String × Json)) (rest : List Char) : Ended (memberChars false ms ++ rest) := by
  rcases ms with - | ⟨⟨k, x⟩, ms⟩ <;> rw [memberChars] <;> rintro c ⟨⟩ <;> simp

theorem length_le_length_itemChars (first : Bool) (xs : List Json) : xs.length ≤ (itemChars first xs).length := by
  induction xs generalizing first with
  | nil => exact Nat.zero_le _
  | cons x xs ih =>
    have hle := ih false
    have hpos : 0 < (chars x).length := by
      obtain ⟨c, cs, hcs, -⟩ := exists_chars_append_eq_cons x []
      rw [List.append_nil] at hcs
      rw [hcs]
      exact Nat.succ_pos _
    rw [itemChars, List.length_append, List.length_append, List.length_cons]
    omega

theorem length_le_length_memberChars (first : Bool) (ms : List (String × Json)) :
    ms.length ≤ (memberChars first ms).length := by
  induction ms generalizing first with
  | nil => exact Nat.zero_le _
  | cons m ms ih =>
    have hle := ih false
    rw [memberChars, List.length_append, List.length_append, List.length_cons, List.length_append, List.length_cons]
    omega

theorem nextItem_itemChars_nil (first : Bool) (rest : List Char) :
    nextItem first (itemChars first [] ++ rest) = .ok (.closed rest) := by
  cases first <;> rfl

theorem nextItem_itemChars_cons (first : Bool) (x : Json) (xs : List Json) (rest : List Char) :
    nextItem first (itemChars first (x :: xs) ++ rest) = .ok (.part (chars x ++ (itemChars false xs ++ rest))) := by
  have hskip := skipSpace_chars x (itemChars false xs ++ rest)
  obtain ⟨c, cs, hcs, hkind⟩ := exists_chars_append_eq_cons x (itemChars false xs ++ rest)
  have hopen : c ≠ ']' := by
    rintro rfl
    cases hkind
  rw [hcs] at hskip
  cases first with
  | true =>
    rw [itemChars, if_pos rfl, List.nil_append, List.append_assoc, hcs]
    unfold nextItem
    rw [hskip]
    dsimp only
    rw [if_neg hopen, if_pos rfl]
  | false =>
    rw [itemChars, if_neg (by decide), List.append_assoc, List.append_assoc, hcs]
    unfold nextItem
    rw [List.singleton_append, skipSpace_cons_of_not rfl]
    dsimp only
    rw [if_neg (by decide), if_neg (by decide), if_pos rfl, hskip]
    dsimp only
    rw [if_neg hopen]

theorem nextKey_memberChars_nil (first : Bool) (rest : List Char) :
    nextKey first (memberChars first [] ++ rest) = .ok (.closed rest) := by
  cases first <;> rfl

theorem nextKey_memberChars_cons (first : Bool) (key : String) (x : Json) (ms : List (String × Json))
    (rest : List Char) : nextKey first (memberChars first ((key, x) :: ms) ++ rest) =
      .ok (.part (key, ':' :: (chars x ++ (memberChars false ms ++ rest)))) := by
  have hkey : keyBody (bodyChars key.toList ++ '"' :: (':' :: (chars x ++ (memberChars false ms ++ rest)))) =
      .ok (.part (key, ':' :: (chars x ++ (memberChars false ms ++ rest)))) := by
    unfold keyBody
    rw [stringBody_bodyChars]
    rfl
  rw [← hkey]
  cases first with
  | true =>
    rw [memberChars, if_pos rfl]
    simp only [List.nil_append, List.append_assoc, List.cons_append, stringChars_append]
    rfl
  | false =>
    rw [memberChars, if_neg (by decide)]
    simp only [List.append_assoc, List.cons_append, List.nil_append, stringChars_append]
    rfl

namespace Reader

variable {reader : Reader α} {print : α → Json}

theorem itemsFrom_itemChars {xs : List α} (h : ∀ x ∈ xs, ReadsBack reader depth (print x) x) {fuel : Nat}
    (hfuel : xs.length < fuel) (first : Bool) (rest : List Char) :
    itemsFrom (reader depth) fuel first (itemChars first (xs.map print) ++ rest) = .ok (xs, rest) := by
  induction xs generalizing fuel first with
  | nil =>
    obtain ⟨fuel, rfl⟩ := Nat.exists_eq_succ_of_ne_zero (Nat.ne_zero_of_lt hfuel)
    unfold itemsFrom
    rw [List.map_nil, nextItem_itemChars_nil]
    rfl
  | cons x xs ih =>
    obtain ⟨fuel, rfl⟩ := Nat.exists_eq_succ_of_ne_zero (Nat.ne_zero_of_lt hfuel)
    have hx := h x List.mem_cons_self (itemChars false (xs.map print) ++ rest) (ended_itemChars _ _)
    have hxs := ih (fun y hy => h y (List.mem_cons_of_mem _ hy)) (Nat.lt_of_succ_lt_succ hfuel) false
    refine bind_eq_ok.2 ⟨_, nextItem_itemChars_cons first (print x) (xs.map print) rest, ?_⟩
    exact bind_eq_ok.2 ⟨_, hx, bind_eq_ok.2 ⟨_, hxs, rfl⟩⟩

theorem items_itemChars {xs : List α} (h : ∀ x ∈ xs, ReadsBack reader depth (print x) x) (rest : List Char) :
    items (reader depth) (itemChars true (xs.map print) ++ rest) = .ok (xs, rest) := by
  refine itemsFrom_itemChars h ?_ true rest
  have hle := length_le_length_itemChars true (xs.map print)
  rw [List.length_map] at hle
  rw [List.length_append]
  omega

theorem readsBack_list {xs : List α} (h : ∀ x ∈ xs, ReadsBack reader depth (print x) x) :
    ReadsBack reader.list (depth + 1) (.array (xs.map print)) xs := by
  intro rest _
  unfold list
  rw [skipSpace_chars, chars]
  exact items_itemChars h rest

theorem membersFrom_memberChars {es : List (String × α)} (h : ∀ e ∈ es, ReadsBack reader depth (print e.2) e.2)
    {fuel : Nat} (hfuel : es.length < fuel) (first : Bool) (rest : List Char) :
    membersFrom (reader depth) fuel first (memberChars first (es.map fun e => (e.1, print e.2)) ++ rest) =
      .ok (es, rest) := by
  induction es generalizing fuel first with
  | nil =>
    obtain ⟨fuel, rfl⟩ := Nat.exists_eq_succ_of_ne_zero (Nat.ne_zero_of_lt hfuel)
    unfold membersFrom
    rw [List.map_nil, nextKey_memberChars_nil]
    rfl
  | cons e es ih =>
    obtain ⟨fuel, rfl⟩ := Nat.exists_eq_succ_of_ne_zero (Nat.ne_zero_of_lt hfuel)
    have he := h e List.mem_cons_self (memberChars false (es.map fun e => (e.1, print e.2)) ++ rest)
      (ended_memberChars _ _)
    have hes := ih (fun e' he' => h e' (List.mem_cons_of_mem _ he')) (Nat.lt_of_succ_lt_succ hfuel) false
    refine bind_eq_ok.2 ⟨_, nextKey_memberChars_cons first e.1 (print e.2) _ rest, bind_eq_ok.2 ⟨_, rfl, ?_⟩⟩
    exact bind_eq_ok.2 ⟨_, he, bind_eq_ok.2 ⟨_, hes, rfl⟩⟩

theorem members_memberChars {es : List (String × α)} (h : ∀ e ∈ es, ReadsBack reader depth (print e.2) e.2)
    (rest : List Char) : members (reader depth) (memberChars true (es.map fun e => (e.1, print e.2)) ++ rest) =
      .ok (es, rest) := by
  refine membersFrom_memberChars h ?_ true rest
  have hle := length_le_length_memberChars true (es.map fun e => (e.1, print e.2))
  rw [List.length_map] at hle
  rw [List.length_append]
  omega

theorem readsBack_dict {d : Dict α} (h : ∀ e ∈ d.entries, ReadsBack reader depth (print e.2) e.2) :
    ReadsBack reader.dict (depth + 1) (.ofDict print d) d := by
  intro rest _
  unfold dict ofDict
  rw [skipSpace_chars, chars]
  refine bind_eq_ok.2 ⟨_, members_memberChars h rest, ?_⟩
  show Except.ok (Dict.ofList d.entries, rest) = _
  rw [Dict.ofList_entries]

end Reader

/-! ### Values of any type -/

mutual

def hasFloat : Json → Bool
  | float _ _ => true
  | array items => anyItemHasFloat items
  | object members => anyMemberHasFloat members
  | null | bool _ | integer _ | string _ => false

def anyItemHasFloat : List Json → Bool
  | [] => false
  | x :: xs => hasFloat x || anyItemHasFloat xs

def anyMemberHasFloat : List (String × Json) → Bool
  | [] => false
  | (_, x) :: ms => hasFloat x || anyMemberHasFloat ms

end

theorem anyItemHasFloat_eq (items : List Json) : anyItemHasFloat items = items.any hasFloat := by
  induction items with
  | nil => rfl
  | cons x xs ih => rw [anyItemHasFloat, ih, List.any_cons]

theorem anyMemberHasFloat_eq (members : List (String × Json)) :
    anyMemberHasFloat members = members.any (hasFloat ·.2) := by
  induction members with
  | nil => rfl
  | cons m ms ih => rw [anyMemberHasFloat, ih, List.any_cons]

/-- The values without floats that can stand in a text where so many brackets may open. -/
inductive Readable : Nat → Json → Prop
  | null {d : Nat} : Readable d null
  | bool {d : Nat} (b : Bool) : Readable d (bool b)
  | integer {d : Nat} {n : Int} (h : IsWord n) : Readable d (integer n)
  | string {d : Nat} (s : String) : Readable d (string s)
  | array {d : Nat} {items : List Json} (h : ∀ x ∈ items, Readable d x) : Readable (d + 1) (array items)
  | object {d : Nat} {members : List (String × Json)} (hsorted : members.Pairwise (·.1 < ·.1))
      (h : ∀ m ∈ members, Readable d m.2) : Readable (d + 1) (object members)

theorem Readable.mono (h : Readable depth j) {deeper : Nat} (hle : depth ≤ deeper) : Readable deeper j := by
  induction h generalizing deeper with
  | null => exact .null
  | bool b => exact .bool b
  | integer hn => exact .integer hn
  | string s => exact .string s
  | array _ ih =>
    obtain ⟨deeper, rfl⟩ := Nat.exists_eq_add_of_le' (Nat.one_le_of_lt hle)
    exact .array fun x hx => ih x hx (Nat.le_of_succ_le_succ hle)
  | object hsorted _ ih =>
    obtain ⟨deeper, rfl⟩ := Nat.exists_eq_add_of_le' (Nat.one_le_of_lt hle)
    exact .object hsorted fun m hm => ih m hm (Nat.le_of_succ_le_succ hle)

theorem length_chars_le_itemChars {xs : List Json} {x : Json} (hx : x ∈ xs) (first : Bool) :
    (chars x).length ≤ (itemChars first xs).length := by
  induction xs generalizing first with
  | nil => cases hx
  | cons y ys ih =>
    rw [itemChars, List.length_append, List.length_append]
    rcases List.mem_cons.1 hx with rfl | hx
    · omega
    · have hle := ih hx false
      omega

theorem length_chars_le_memberChars {ms : List (String × Json)} {m : String × Json} (hm : m ∈ ms) (first : Bool) :
    (chars m.2).length ≤ (memberChars first ms).length := by
  induction ms generalizing first with
  | nil => cases hm
  | cons y ys ih =>
    rw [memberChars, List.length_append, List.length_append, List.length_cons]
    rcases List.mem_cons.1 hm with rfl | hm
    · omega
    · have hle := ih hm false
      omega

/-- Fewer brackets open in a value than its compact form has characters. -/
theorem Readable.length_chars (h : Readable depth j) : Readable (chars j).length j := by
  induction h with
  | null => exact .null
  | bool b => exact .bool b
  | integer hn => exact .integer hn
  | string s => exact .string s
  | array _ ih =>
    rw [chars, List.length_cons]
    exact .array fun x hx => (ih x hx).mono (length_chars_le_itemChars hx true)
  | object hsorted _ ih =>
    rw [chars, List.length_cons]
    exact .object hsorted fun m hm => (ih m hm).mono (length_chars_le_memberChars hm true)

namespace Reader

theorem value_eq_valueWith (depth : Nat) : ∃ inner, value depth = valueWith inner := by
  cases depth with
  | zero => exact ⟨_, rfl⟩
  | succ depth => exact ⟨_, rfl⟩

theorem valueWith_integer {n : Int} (h : IsWord n) (hrest : Ended rest)
    (inner : Option (List Char → Except Fault (Json × List Char))) :
    valueWith inner (chars (.integer n) ++ rest) = .ok (.integer n, rest) := by
  have hread := Number.read_integerChars h hrest
  obtain ⟨c, cs, hcs, hc⟩ := exists_integerChars_append_eq_cons n rest
  have hne {d : Char} (hd : d ≠ '-') (hdigit : d.isDigit = false) : c ≠ d := by
    rintro rfl
    rcases hc with heq | htrue
    · exact hd heq
    · rw [hdigit] at htrue
      cases htrue
  unfold valueWith
  rw [skipSpace_chars, chars]
  rw [hcs] at hread ⊢
  dsimp only
  rw [if_neg (hne (by decide) rfl), if_neg (hne (by decide) rfl), if_neg (hne (by decide) rfl),
    if_pos (by simpa using hc), hread]
  rfl

/-- **A printed value is read back**, where as many brackets may open as it has inside each other. -/
theorem readsBack_value (h : Readable depth j) : ReadsBack value depth j j := by
  induction h with
  | @null d =>
    intro rest _
    obtain ⟨inner, hinner⟩ := value_eq_valueWith d
    rw [hinner]
    unfold valueWith
    rw [skipSpace_chars]
    rfl
  | @bool d b =>
    intro rest _
    obtain ⟨inner, hinner⟩ := value_eq_valueWith d
    rw [hinner]
    unfold valueWith
    rw [skipSpace_chars]
    cases b <;> rfl
  | @integer d n hn =>
    intro rest hrest
    obtain ⟨inner, hinner⟩ := value_eq_valueWith d
    rw [hinner]
    exact valueWith_integer hn hrest inner
  | @string d s =>
    intro rest _
    obtain ⟨inner, hinner⟩ := value_eq_valueWith d
    rw [hinner]
    unfold valueWith
    rw [skipSpace_chars, chars, stringChars_append]
    exact bind_eq_ok.2 ⟨_, stringBody_bodyChars s rest, rfl⟩
  | @array d xs _ ih =>
    intro rest _
    have hitems : items (value d) (itemChars true (xs.map id) ++ rest) = .ok (xs, rest) := items_itemChars ih rest
    rw [List.map_id] at hitems
    show valueWith (some (value d)) _ = _
    unfold valueWith
    rw [skipSpace_chars, chars]
    exact bind_eq_ok.2 ⟨_, hitems, rfl⟩
  | @object d ms hsorted _ ih =>
    intro rest _
    have hmembers : members (value d) (memberChars true (ms.map fun m => (m.1, id m.2)) ++ rest) = .ok (ms, rest) :=
      members_memberChars ih rest
    have hms : (ms.map fun m => (m.1, id m.2)) = ms := List.map_id ms
    rw [hms] at hmembers
    show valueWith (some (value d)) _ = _
    unfold valueWith
    rw [skipSpace_chars, chars]
    refine bind_eq_ok.2 ⟨_, hmembers, ?_⟩
    show Except.ok (Json.object (Dict.ofList ms).entries, rest) = _
    rw [Dict.ofList_entries ⟨ms, hsorted⟩]

end Reader

end CapsuleCompiler.Json
