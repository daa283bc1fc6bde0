/-!
# Dict — texts as keys, kept in the order of the keys

A `Dict` is the list of its entries in strictly increasing key order (code points decide), so two dictionaries
are equal exactly when they hold the same entries, and walking one is walking its keys in order. Inserting
under a key that is present replaces the value. The laws say what `get?` sees after an insertion.
-/

namespace CapsuleCompiler

/-- Entries with strictly increasing keys. -/
structure Dict (α : Type) where
  entries : List (String × α)
  sorted : entries.Pairwise (·.1 < ·.1)

namespace Dict

variable {α β : Type}

def empty : Dict α := ⟨[], .nil⟩

instance : Inhabited (Dict α) := ⟨empty⟩

def size (d : Dict α) : Nat := d.entries.length

def isEmpty (d : Dict α) : Bool := d.entries.isEmpty

def keys (d : Dict α) : List String := d.entries.map (·.1)

def values (d : Dict α) : List α := d.entries.map (·.2)

def get? (d : Dict α) (key : String) : Option α := d.entries.lookup key

def contains (d : Dict α) (key : String) : Bool := (d.get? key).isSome

def insertEntry (key : String) (value : α) : List (String × α) → List (String × α)
  | [] => [(key, value)]
  | (k, v) :: rest =>
    if key < k then (key, value) :: (k, v) :: rest
    else if key = k then (key, value) :: rest
    else (k, v) :: insertEntry key value rest

theorem lt_of_not_lt_of_ne {a b : String} (h : ¬a < b) (hne : a ≠ b) : b < a := by
  rcases Classical.em (b < a) with h' | h'
  · exact h'
  · exact absurd (String.le_antisymm (String.not_lt.1 h') (String.not_lt.1 h)) hne

theorem mem_insertEntry {key : String} {value : α} {e : String × α} :
    ∀ {es : List (String × α)}, e ∈ insertEntry key value es → e = (key, value) ∨ e ∈ es
  | [], h => by simpa [insertEntry] using h
  | (k, v) :: rest, h => by
    simp only [insertEntry] at h
    split at h
    · simpa using h
    · split at h
      · rcases List.mem_cons.1 h with h | h
        · exact .inl h
        · exact .inr (List.mem_cons_of_mem _ h)
      · rcases List.mem_cons.1 h with h | h
        · exact .inr (h ▸ List.mem_cons_self)
        · exact (mem_insertEntry h).imp id (List.mem_cons_of_mem _)

theorem sorted_insertEntry (key : String) (value : α) :
    ∀ {es : List (String × α)}, es.Pairwise (·.1 < ·.1) →
      (insertEntry key value es).Pairwise (·.1 < ·.1)
  | [], _ => by simp [insertEntry]
  | (k, v) :: rest, h => by
    have ⟨hk, hrest⟩ := List.pairwise_cons.1 h
    simp only [insertEntry]
    split
    · next hlt =>
      refine List.pairwise_cons.2 ⟨fun e he => ?_, h⟩
      rcases List.mem_cons.1 he with rfl | he
      · exact hlt
      · exact String.lt_trans hlt (hk e he)
    · next hlt =>
      split
      · next heq => subst heq; exact List.pairwise_cons.2 ⟨hk, hrest⟩
      · next hne =>
        refine List.pairwise_cons.2 ⟨fun e he => ?_, sorted_insertEntry key value hrest⟩
        rcases mem_insertEntry he with rfl | he
        · exact lt_of_not_lt_of_ne hlt hne
        · exact hk e he

def insert (d : Dict α) (key : String) (value : α) : Dict α :=
  ⟨insertEntry key value d.entries, sorted_insertEntry key value d.sorted⟩

/-- Keeps the value of a key that is already present. -/
def insertNew (d : Dict α) (key : String) (value : α) : Dict α :=
  if d.contains key then d else d.insert key value

/-- Of entries with one key the last one stays. -/
def ofList (es : List (String × α)) : Dict α :=
  es.foldl (fun d e => d.insert e.1 e.2) empty

theorem pairwise_map (f : α → β) {es : List (String × α)} (h : es.Pairwise (·.1 < ·.1)) :
    (es.map fun e => (e.1, f e.2)).Pairwise (·.1 < ·.1) :=
  List.pairwise_map.2 h

def map (f : α → β) (d : Dict α) : Dict β :=
  ⟨d.entries.map fun e => (e.1, f e.2), pairwise_map f d.sorted⟩

/-! ### What a look-up sees -/

theorem ext {d e : Dict α} (h : d.entries = e.entries) : d = e := by
  cases d; cases e; simp_all

theorem lookup_insertEntry (key k : String) (value : α) (es : List (String × α)) :
    (insertEntry key value es).lookup k = if k = key then some value else es.lookup k := by
  by_cases h : k = key
  · subst h
    induction es with
    | nil => simp [insertEntry]
    | cons e es ih =>
      obtain ⟨k', v⟩ := e
      simp only [insertEntry]
      split
      · simp
      · split
        · simp
        · next hne => simp_all [List.lookup_cons, beq_eq_false_iff_ne.2 hne]
  · have hb := beq_eq_false_iff_ne.2 h
    induction es with
    | nil => simp [insertEntry, List.lookup_cons, hb, h]
    | cons e es ih =>
      obtain ⟨k', v⟩ := e
      simp only [insertEntry]
      split
      · simp [List.lookup_cons, hb]
      · split
        · next heq => subst heq; simp [List.lookup_cons, hb]
        · simp [List.lookup_cons, ih, h]

@[simp] theorem get?_empty (key : String) : (empty : Dict α).get? key = none := rfl

@[simp] theorem get?_insert (d : Dict α) (key k : String) (value : α) :
    (d.insert key value).get? k = if k = key then some value else d.get? k :=
  lookup_insertEntry key k value d.entries

end Dict

end CapsuleCompiler
