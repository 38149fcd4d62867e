import Mathlib.Data.List.Basic
import FunctionStudy.Data

/-! Values at places. A place says which part of a value to enter, then which part of that one, and
so on. Writing results exchanges what stands at a place and moves nothing. -/

namespace FunctionStudy.Data

/-- The values directly inside a value, in order; in a mapping, those under its keys. -/
def parts : Data → List Data
  | .list items | .tuple items => items
  | .map entries => entries.map Prod.snd
  | _ => []

def length? : Data → Option ℕ
  | .list items | .tuple items => some items.length
  | _ => none

def keys? : Data → Option (List Data)
  | .map entries => some (entries.map Prod.fst)
  | _ => none

def valueAt? : Data → List ℕ → Option Data
  | d, [] => some d
  | d, i :: place => d.parts[i]?.bind fun part => part.valueAt? place

/-- Leaves that are written as they are, whatever their value. -/
def IsPlain : Data → Prop
  | .bool _ | .int _ | .text _ | .timestamp _ => True
  | _ => False

/-- How a value is written in results: `e` is `d` with null for all numbers that are not finite, and lists
for tuples. -/
structure IsWritten (d e : Data) : Prop where
  numbers : ∀ place x, e.valueAt? place = some (.float x) ↔
    d.valueAt? place = some (.float x) ∧ x.isFinite = true
  nulls : ∀ place, e.valueAt? place = some .null ↔
    d.valueAt? place = some .null ∨ ∃ x, d.valueAt? place = some (.float x) ∧ x.isFinite = false
  leaves : ∀ place leaf, leaf.IsPlain → (e.valueAt? place = some leaf ↔ d.valueAt? place = some leaf)
  lengths : ∀ place, (e.valueAt? place).bind length? = (d.valueAt? place).bind length?
  tuples : ∀ place items, e.valueAt? place ≠ some (.tuple items)
  keys : ∀ place, (e.valueAt? place).bind keys? = (d.valueAt? place).bind keys?

section Values

variable {d e : Data}

theorem finiteItems_eq (items : List Data) : finiteItems items = items.map finiteOnly := by
  induction items with
  | nil => rfl
  | cons d rest ih => rw [finiteItems, ih, List.map_cons]

theorem finiteEntries_eq (entries : List (Data × Data)) :
    finiteEntries entries = entries.map fun e => (e.1, e.2.finiteOnly) := by
  induction entries with
  | nil => rfl
  | cons e rest ih => rw [finiteEntries, ih, List.map_cons]

/-- A number is the only value that may become another one, and it has nothing inside. -/
theorem finiteOnly_float (x : Binary64) :
    (float x).finiteOnly = float x ∧ x.isFinite = true ∨ (float x).finiteOnly = null ∧ x.isFinite = false := by
  rw [finiteOnly]
  cases x.isFinite with
  | true => exact .inl ⟨rfl, rfl⟩
  | false => exact .inr ⟨rfl, rfl⟩

theorem parts_finiteOnly (d : Data) : d.finiteOnly.parts = d.parts.map finiteOnly := by
  cases d with
  | list items => exact finiteItems_eq items
  | tuple items => exact finiteItems_eq items
  | map entries => rw [finiteOnly, finiteEntries_eq, parts, parts, List.map_map, List.map_map]; rfl
  | float x => rcases finiteOnly_float x with ⟨same, -⟩ | ⟨same, -⟩ <;> rw [same] <;> rfl
  | _ => rfl

theorem length?_finiteOnly (d : Data) : d.finiteOnly.length? = d.length? := by
  cases d with
  | list items => rw [finiteOnly, finiteItems_eq, length?, length?, List.length_map]
  | tuple items => rw [finiteOnly, finiteItems_eq, length?, length?, List.length_map]
  | float x =>
    rcases finiteOnly_float x with ⟨same, -⟩ | ⟨same, -⟩
    · rw [same]
    · rw [same]
      rfl
  | _ => rfl

theorem keys?_finiteOnly (d : Data) : d.finiteOnly.keys? = d.keys? := by
  cases d with
  | map entries => rw [finiteOnly, finiteEntries_eq, keys?, keys?, List.map_map]; rfl
  | float x =>
    rcases finiteOnly_float x with ⟨same, -⟩ | ⟨same, -⟩
    · rw [same]
    · rw [same]
      rfl
  | _ => rfl

theorem finiteOnly_ne_tuple (d : Data) (items : List Data) : d.finiteOnly ≠ .tuple items := by
  cases d with
  | float x => rcases finiteOnly_float x with ⟨same, -⟩ | ⟨same, -⟩ <;> rw [same] <;> nofun
  | _ => nofun

theorem finiteOnly_eq_float {x : Binary64} : d.finiteOnly = .float x ↔ d = .float x ∧ x.isFinite = true := by
  cases d with
  | float y =>
    rcases finiteOnly_float y with ⟨same, finite⟩ | ⟨same, infinite⟩
    · rw [same, float.injEq]
      exact ⟨fun h => ⟨h, h ▸ finite⟩, fun h => h.1⟩
    · rw [same, float.injEq]
      refine iff_of_false nofun fun h => ?_
      rw [h.1, h.2] at infinite
      cases infinite
  | _ => exact iff_of_false nofun nofun

theorem finiteOnly_eq_null : d.finiteOnly = .null ↔ d = .null ∨ ∃ x, d = .float x ∧ x.isFinite = false := by
  cases d with
  | null => exact iff_of_true rfl (.inl rfl)
  | float x =>
    rcases finiteOnly_float x with ⟨same, finite⟩ | ⟨same, infinite⟩
    · rw [same]
      refine iff_of_false nofun ?_
      rintro (absent | ⟨y, equal, infinite⟩)
      · cases absent
      · rw [float.inj equal, infinite] at finite
        cases finite
    · exact iff_of_true same (.inr ⟨x, rfl, infinite⟩)
  | _ => exact iff_of_false nofun (by simp)

theorem finiteOnly_of_plain (plain : d.IsPlain) : d.finiteOnly = d := by
  cases d with
  | bool b => rfl
  | int n => rfl
  | text s => rfl
  | timestamp t => rfl
  | _ => cases plain

theorem isPlain_of_finiteOnly (plain : d.finiteOnly.IsPlain) : d.IsPlain := by
  cases d with
  | float x => rcases finiteOnly_float x with ⟨same, -⟩ | ⟨same, -⟩ <;> rw [same] at plain <;> cases plain
  | _ => exact plain

end Values

section Writing

variable {d e : Data} {place : List ℕ}

/-- Writing works at each place on its own. -/
theorem valueAt?_finiteOnly (d : Data) (place : List ℕ) :
    d.finiteOnly.valueAt? place = (d.valueAt? place).map finiteOnly := by
  induction place generalizing d with
  | nil => rfl
  | cons i place ih =>
    rw [valueAt?, valueAt?, parts_finiteOnly, List.getElem?_map, Option.bind_map, Option.map_bind]
    exact congrArg _ (funext fun part => ih part)

theorem valueAt?_finiteOnly_eq_some : d.finiteOnly.valueAt? place = some e ↔
    ∃ value, d.valueAt? place = some value ∧ value.finiteOnly = e := by
  rw [valueAt?_finiteOnly, Option.map_eq_some_iff]

theorem isWritten_finiteOnly (d : Data) : IsWritten d d.finiteOnly where
  numbers place x := by
    simp only [valueAt?_finiteOnly_eq_some, finiteOnly_eq_float]
    constructor
    · rintro ⟨_, found, rfl, finite⟩
      exact ⟨found, finite⟩
    · rintro ⟨found, finite⟩
      exact ⟨_, found, rfl, finite⟩
  nulls place := by
    simp only [valueAt?_finiteOnly_eq_some, finiteOnly_eq_null]
    constructor
    · rintro ⟨_, found, rfl | ⟨x, rfl, infinite⟩⟩
      · exact .inl found
      · exact .inr ⟨x, found, infinite⟩
    · rintro (found | ⟨x, found, infinite⟩)
      · exact ⟨_, found, .inl rfl⟩
      · exact ⟨_, found, .inr ⟨x, rfl, infinite⟩⟩
  leaves place leaf plain := by
    rw [valueAt?_finiteOnly_eq_some]
    constructor
    · rintro ⟨value, found, rfl⟩
      rwa [finiteOnly_of_plain (isPlain_of_finiteOnly plain)]
    · exact fun found => ⟨leaf, found, finiteOnly_of_plain plain⟩
  lengths place := by
    rw [valueAt?_finiteOnly, Option.bind_map]
    exact congrArg _ (funext length?_finiteOnly)
  tuples place items found := by
    obtain ⟨value, -, same⟩ := valueAt?_finiteOnly_eq_some.mp found
    exact finiteOnly_ne_tuple value items same
  keys place := by
    rw [valueAt?_finiteOnly, Option.bind_map]
    exact congrArg _ (funext keys?_finiteOnly)

mutual

theorem finiteOnly_finiteOnly : ∀ d : Data, d.finiteOnly.finiteOnly = d.finiteOnly
  | .null | .bool _ | .int _ | .text _ | .timestamp _ => rfl
  | .float x => by
    rcases finiteOnly_float x with ⟨same, -⟩ | ⟨same, -⟩
    · rw [same, same]
    · rw [same]
      rfl
  | .list items => by rw [finiteOnly, finiteOnly, finiteItems_finiteItems items]
  | .tuple items => by rw [finiteOnly, finiteOnly, finiteItems_finiteItems items]
  | .map entries => by rw [finiteOnly, finiteOnly, finiteEntries_finiteEntries entries]

theorem finiteItems_finiteItems : ∀ items : List Data, finiteItems (finiteItems items) = finiteItems items
  | [] => rfl
  | d :: rest => by
    rw [finiteItems, finiteItems, finiteOnly_finiteOnly d, finiteItems_finiteItems rest]

theorem finiteEntries_finiteEntries :
    ∀ entries : List (Data × Data), finiteEntries (finiteEntries entries) = finiteEntries entries
  | [] => rfl
  | (key, d) :: rest => by
    rw [finiteEntries, finiteEntries, finiteOnly_finiteOnly d, finiteEntries_finiteEntries rest]

end

end Writing
section TextKeys

/-- Every key at every place is a text, as in what other programs can read. -/
def HasTextKeys (d : Data) : Prop :=
  ∀ place names, (d.valueAt? place).bind keys? = some names → ∀ key ∈ names, ∃ s, key = .text s

variable {d : Data}

theorem hasTextKeys_iff : d.HasTextKeys ↔
    (∀ names, d.keys? = some names → ∀ key ∈ names, ∃ s, key = .text s) ∧ ∀ part ∈ d.parts, part.HasTextKeys := by
  constructor
  · intro h
    refine ⟨h [], fun part hpart place names found => ?_⟩
    obtain ⟨i, inside, rfl⟩ := List.getElem_of_mem hpart
    refine h (i :: place) names ?_
    rw [valueAt?, List.getElem?_eq_getElem inside]
    exact found
  · rintro ⟨own, within⟩ place names found
    cases place with
    | nil => exact own names found
    | cons i place =>
      rw [valueAt?, Option.bind_assoc] at found
      obtain ⟨part, entered, rest⟩ := Option.bind_eq_some_iff.mp found
      exact within part (List.mem_of_getElem? entered) place names rest

theorem hasTextKeys_leaf (noKeys : d.keys? = none) (noParts : d.parts = []) : d.HasTextKeys := by
  rw [hasTextKeys_iff, noKeys, noParts]
  exact ⟨nofun, List.forall_mem_nil _⟩

@[simp] theorem hasTextKeys_null : null.HasTextKeys := hasTextKeys_leaf rfl rfl
@[simp] theorem hasTextKeys_bool (b : Bool) : (bool b).HasTextKeys := hasTextKeys_leaf rfl rfl
@[simp] theorem hasTextKeys_int (n : Int) : (int n).HasTextKeys := hasTextKeys_leaf rfl rfl
@[simp] theorem hasTextKeys_float (x : Binary64) : (float x).HasTextKeys := hasTextKeys_leaf rfl rfl
@[simp] theorem hasTextKeys_text (s : String) : (text s).HasTextKeys := hasTextKeys_leaf rfl rfl

@[simp]
theorem hasTextKeys_list {items : List Data} : (list items).HasTextKeys ↔ ∀ d ∈ items, d.HasTextKeys := by
  rw [hasTextKeys_iff]
  exact and_iff_right nofun

@[simp]
theorem hasTextKeys_record {entries : List (String × Data)} :
    (record entries).HasTextKeys ↔ ∀ e ∈ entries, e.2.HasTextKeys := by
  have texts : ∀ names, (record entries).keys? = some names → ∀ key ∈ names, ∃ s, key = .text s := by
    intro names named key found
    obtain rfl := Option.some.inj named
    obtain ⟨_, listed, rfl⟩ := List.mem_map.mp found
    obtain ⟨e, -, rfl⟩ := List.mem_map.mp listed
    exact ⟨e.1, rfl⟩
  rw [hasTextKeys_iff, and_iff_right texts, record, parts, List.map_map, List.forall_mem_map]
  exact Iff.rfl

@[simp]
theorem hasTextKeys_optional {o : Option Data} : (optional o).HasTextKeys ↔ ∀ d ∈ o, d.HasTextKeys := by
  cases o <;> simp [optional]

@[simp]
theorem hasTextKeys_floats (xs : List Binary64) : (floats xs).HasTextKeys := by simp [floats]

@[simp]
theorem hasTextKeys_texts (xs : List String) : (texts xs).HasTextKeys := by simp [texts]

theorem hasTextKeys_finiteOnly : d.finiteOnly.HasTextKeys ↔ d.HasTextKeys := by
  simp only [HasTextKeys, (isWritten_finiteOnly d).keys]

end TextKeys

end FunctionStudy.Data
