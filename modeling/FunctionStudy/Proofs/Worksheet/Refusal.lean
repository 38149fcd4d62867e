import Mathlib.Algebra.Group.Int.Defs
import FunctionStudy.Proofs.Work.Failure
import FunctionStudy.Worksheet

/-! Refusing worksheets. Three faults go by other names than that of the worksheet: operations that
are a scalar, integers beyond every double among area points, and integers that are too long to be
written. -/

namespace FunctionStudy

/-- A fault of the worksheet, or one of the others that are named. -/
def Error.IsRefusal (others : Error → Prop) (e : Error) : Prop := (∃ cause, e = .worksheet cause) ∨ others e

theorem Error.IsRefusal.imp {P Q : Error → Prop} {e : Error} (h : e.IsRefusal P) (others : P e → Q e) :
    e.IsRefusal Q := Or.imp_right others h

section Binds

variable {α β : Type} {x : Except Error α} {f : α → Except Error β}

theorem exists_of_bind_ok {b : β} (h : x >>= f = .ok b) : ∃ a, x = .ok a ∧ f a = .ok b := by
  cases x with
  | ok a => exact ⟨a, rfl, h⟩
  | error e => cases h

theorem bind_of_eq_ok {a : α} (h : x = .ok a) : x >>= f = f a := by
  rw [h]
  rfl

end Binds

namespace Data

variable {d : Data}

theorem iterate_of_isAbsent (absent : d.isAbsent = true) : d.iterate = [] := by
  cases d with
  | text s =>
    rw [isAbsent, String.isEmpty_iff] at absent
    rw [absent]
    rfl
  | list items => exact List.isEmpty_iff.mp absent
  | tuple items => exact List.isEmpty_iff.mp absent
  | map entries =>
    rw [isAbsent, List.isEmpty_iff] at absent
    rw [absent]
    rfl
  | _ => rfl

theorem hasLongInteger_of_isAbsent (absent : d.isAbsent = true) : d.hasLongInteger = false := by
  cases d with
  | int n =>
    have zero : n = 0 := of_decide_eq_true absent
    rw [zero]
    rfl
  | list items =>
    obtain rfl := List.isEmpty_iff.mp absent
    rfl
  | tuple items =>
    obtain rfl := List.isEmpty_iff.mp absent
    rfl
  | map entries =>
    obtain rfl := List.isEmpty_iff.mp absent
    rfl
  | _ => rfl

theorem writtenText_meets (d : Data) : Meets
    (fun e => d.hasLongInteger = true ∧ e = .conversion .integerTooLong)
    (fun _ => d.hasLongInteger = false) d.writtenText := by
  unfold writtenText
  split_ifs with long
  · exact ⟨long, rfl⟩
  · exact Bool.eq_false_iff.mpr long

theorem asDouble?_meets (d : Data) : Meets
    (fun e => ∃ n, d = .int n ∧ Binary64.ofInt? n = none ∧ e = .conversion .integerTooLarge)
    (fun _ => ∀ n, d = .int n → Binary64.ofInt? n ≠ none) d.asDouble? := by
  cases d with
  | int n =>
    rw [asDouble?, Binary64.ofIntChecked]
    cases near : Binary64.ofInt? n with
    | none => exact ⟨n, rfl, near, rfl⟩
    | some x =>
      intro m same
      cases same
      rw [near]
      exact nofun
  | _ => exact fun n same => nomatch same

end Data

namespace WorksheetEntry

def writtenParts (d : Data) : List Data :=
  d.get "id" :: d.get "expr" :: d.get "notes" :: (d.get "operations").iterate

/-- What is wrong with an entry without being called a fault of the worksheet. -/
inductive Escapes (d : Data) : Error → Prop
  | operations {kind : String} (given : d.get "operations" ≠ .null)
      (scalar : (d.get "operations").scalarKind? = some kind) : Escapes d (.notIterable kind)
  | areaPoint {n : ℤ} (item : .int n ∈ (d.get "area_points").iterate) (large : Binary64.ofInt? n = none) :
      Escapes d (.conversion .integerTooLarge)
  | text {part : Data} (stands : part ∈ writtenParts d) (long : part.hasLongInteger = true) :
      Escapes d (.conversion .integerTooLong)

variable {d : Data}

theorem writtenText_refuses {part : Data} (stands : part ∈ writtenParts d) :
    Meets (Error.IsRefusal (Escapes d)) (fun _ => part.hasLongInteger = false) part.writtenText := by
  refine part.writtenText_meets.weaken fun e ⟨long, cause⟩ => .inr ?_
  rw [cause]
  exact .text stands long

theorem idOf_refuses (position : ℕ) :
    Meets (Error.IsRefusal (Escapes d)) (fun _ => (d.get "id").hasLongInteger = false) (idOf d position) := by
  unfold idOf
  split_ifs with absent
  · exact Data.hasLongInteger_of_isAbsent absent
  · exact writtenText_refuses List.mem_cons_self

theorem textOf_meets (d : Data) (key : String) : Meets
    (fun e => (d.get key).hasLongInteger = true ∧ e = .conversion .integerTooLong)
    (fun _ => (d.get key).hasLongInteger = false) (textOf d key) := by
  unfold textOf Data.get
  cases d.get? key with
  | none => rfl
  | some part => exact part.writtenText_meets

theorem operationsOf_refuses (id : String) :
    Meets (Error.IsRefusal (Escapes d))
      (fun _ => (d.get "operations" ≠ .null → (d.get "operations").scalarKind? = none) ∧
        ∀ part ∈ (d.get "operations").iterate, part.hasLongInteger = false)
      (operationsOf id (d.get "operations")) := by
  unfold operationsOf
  split
  · next null => exact ⟨fun given => absurd null given, by rw [null]; exact List.forall_mem_nil _⟩
  · next given =>
    cases scalar : (d.get "operations").scalarKind? with
    | some kind => exact .inr (.operations given scalar)
    | none =>
      have names : ∀ part ∈ (d.get "operations").iterate, part ∈ writtenParts d := fun part hp =>
        List.mem_cons_of_mem _ (List.mem_cons_of_mem _ (List.mem_cons_of_mem _ hp))
      refine (Meets.mapM_all fun part hp => writtenText_refuses (names part hp)).bind fun texts short => ?_
      split
      · exact ⟨fun _ => rfl, short⟩
      · exact .inl ⟨_, rfl⟩

/-- An item of the area that is no number is a fault of the worksheet, unless it is an integer. -/
theorem areaPointsOf_refuses (id : String) :
    Meets (Error.IsRefusal (Escapes d))
      (fun _ => ∀ n, .int n ∈ (d.get "area_points").iterate → Binary64.ofInt? n ≠ none)
      (areaPointsOf id (d.get "area_points")) := by
  unfold areaPointsOf
  split_ifs with absent scalar
  · intro n item
    rw [Data.iterate_of_isAbsent absent] at item
    cases item
  · exact .inl ⟨_, rfl⟩
  · refine (Meets.mapM_all (P := fun item => ∀ n, item = .int n → Binary64.ofInt? n ≠ none)
      fun item hi => ?_).imp fun _ fits n hn => fits _ hn n rfl
    have number := item.asDouble?_meets.weaken (F := Error.IsRefusal (Escapes d))
      fun e ⟨n, same, large, cause⟩ => .inr (cause ▸ .areaPoint (same ▸ hi) large)
    refine number.bind fun x fits => ?_
    cases x with
    | some x => exact fits
    | none => exact .inl ⟨_, rfl⟩

theorem ofData_meets (taken : List String) (position : ℕ) (d : Data) :
    Meets (Error.IsRefusal (Escapes d)) (fun _ => ∀ e, ¬ Escapes d e) (ofData taken position d) := by
  unfold ofData
  cases found : d.get? "expr" with
  | none => exact .inl ⟨_, rfl⟩
  | some expression =>
    have isExpression : expression = d.get "expr" := by rw [Data.get, found, Option.getD_some]
    apply (idOf_refuses position).bind
    intro id shortId
    dsimp only
    split_ifs with repeated
    · exact .inl ⟨_, rfl⟩
    apply (operationsOf_refuses id).bind
    rintro operations ⟨several, shortNames⟩
    apply (areaPointsOf_refuses id).bind
    intro points fits
    apply (writtenText_refuses (isExpression ▸ List.mem_cons_of_mem _ List.mem_cons_self)).bind
    intro text shortText
    have written := (textOf_meets d "notes").weaken (F := Error.IsRefusal (Escapes d))
      fun e ⟨long, cause⟩ => .inr (cause ▸ .text (by simp [writtenParts]) long)
    apply written.bind
    intro notes shortNotes e escapes
    -- Each kind of fault has been met on the way, and would have stopped the reading there.
    cases escapes with
    | operations given scalar =>
      rw [several given] at scalar
      cases scalar
    | areaPoint item large => exact fits _ item large
    | text stands long =>
      rw [isExpression] at shortText
      have short : ∀ part ∈ writtenParts d, part.hasLongInteger = false :=
        List.forall_mem_cons.mpr ⟨shortId, List.forall_mem_cons.mpr ⟨shortText,
          List.forall_mem_cons.mpr ⟨shortNotes, shortNames⟩⟩⟩
      rw [short _ stands] at long
      cases long

theorem operationsOf_scalar {id kind : String} (given : d ≠ .null) (scalar : d.scalarKind? = some kind) :
    operationsOf id d = .error (.notIterable kind) := by
  unfold operationsOf
  split
  · next => exact absurd rfl given
  · rw [scalar]

/-- An expression and a new id are all that is looked at before the operations. -/
theorem ofData_scalar {taken : List String} {position : ℕ} {id kind : String}
    (expression : (d.get? "expr").isSome) (named : idOf d position = .ok id) (new : id ∉ taken)
    (given : d.get "operations" ≠ .null) (scalar : (d.get "operations").scalarKind? = some kind) :
    ofData taken position d = .error (.notIterable kind) := by
  obtain ⟨text, found⟩ := Option.isSome_iff_exists.mp expression
  have unknown : taken.contains id = false := by rwa [List.contains_eq_mem, decide_eq_false_iff_not]
  unfold ofData
  rw [found]
  dsimp only
  rw [bind_of_eq_ok named, unknown, operationsOf_scalar given scalar]
  rfl

end WorksheetEntry

namespace Worksheet

def entriesIn (d : Data) : List Data :=
  match d.get "functions" with
  | .list items => items
  | _ => []

/-- What is wrong with one of several entries without being called a fault of the worksheet. -/
def EntriesEscape (ds : List Data) (e : Error) : Prop := ∃ d ∈ ds, WorksheetEntry.Escapes d e

/-- What is wrong with a worksheet without being called a fault of it. -/
inductive Escapes (d : Data) : Error → Prop
  | entry {e : Error} (escapes : EntriesEscape (entriesIn d) e) : Escapes d e
  | title (long : (d.get "title").hasLongInteger = true) : Escapes d (.conversion .integerTooLong)

variable {d : Data}

theorem entriesOf_meets (taken : List String) (position : ℕ) (ds : List Data) :
    Meets (Error.IsRefusal (EntriesEscape ds)) (fun _ => ∀ e, ¬ EntriesEscape ds e)
      (entriesOf taken position ds) := by
  induction ds generalizing taken position with
  | nil =>
    rintro e ⟨d, hd, -⟩
    cases hd
  | cons d rest ih =>
    unfold entriesOf
    have first := (WorksheetEntry.ofData_meets taken position d).weaken
      (F := Error.IsRefusal (EntriesEscape (d :: rest)))
      fun e refusal => refusal.imp fun escapes => ⟨d, List.mem_cons_self, escapes⟩
    apply first.bind
    intro entry sound
    have others := (ih (entry.id :: taken) (position + 1)).weaken
      (F := Error.IsRefusal (EntriesEscape (d :: rest)))
      fun e refusal => refusal.imp fun ⟨other, hd, escapes⟩ => ⟨other, List.mem_cons_of_mem d hd, escapes⟩
    apply others.bind
    rintro entries sounds e ⟨other, hd, escapes⟩
    rcases List.mem_cons.mp hd with rfl | hd
    · exact sound e escapes
    · exact sounds e ⟨other, hd, escapes⟩

theorem ofData_meets (d : Data) :
    Meets (Error.IsRefusal (Escapes d)) (fun _ => ∀ e, ¬ Escapes d e) (ofData d) := by
  unfold ofData
  split
  · next entries =>
    split
    · next first rest functions =>
      have given : entriesIn (.map entries) = first :: rest := by rw [entriesIn, functions]
      rw [← given]
      have read := (entriesOf_meets [] 1 (entriesIn (.map entries))).weaken
        (F := Error.IsRefusal (Escapes (.map entries))) fun e refusal => refusal.imp .entry
      apply read.bind
      intro es sounds
      have written := (WorksheetEntry.textOf_meets (.map entries) "title").weaken
        (F := Error.IsRefusal (Escapes (.map entries))) fun e ⟨long, cause⟩ => .inr (cause ▸ .title long)
      apply written.bind
      intro title short e escapes
      cases escapes with
      | entry escapes => exact sounds e escapes
      | title long =>
        rw [short] at long
        cases long
    · exact .inl ⟨_, rfl⟩
  · exact .inl ⟨_, rfl⟩

/-- Entries are read in order, and the first one that cannot be read decides. -/
theorem entriesOf_eq_error {taken : List String} {position : ℕ} {before after : List Data} {entry : Data}
    {es : List WorksheetEntry} {e : Error} (read : entriesOf taken position before = .ok es)
    (fails : WorksheetEntry.ofData ((es.map (·.id)).reverse ++ taken) (position + before.length) entry =
      .error e) :
    entriesOf taken position (before ++ entry :: after) = .error e := by
  induction before generalizing taken position es with
  | nil =>
    cases read
    have here : WorksheetEntry.ofData taken position entry = .error e := fails
    rw [List.nil_append, entriesOf, here]
    rfl
  | cons d rest ih =>
    rw [entriesOf] at read
    obtain ⟨one, first, read⟩ := exists_of_bind_ok read
    obtain ⟨others, known, read⟩ := exists_of_bind_ok read
    obtain rfl := Except.ok.inj read
    have later : entriesOf (one.id :: taken) (position + 1) (rest ++ entry :: after) = .error e := by
      apply ih known
      rw [List.map_cons, List.reverse_cons, List.append_assoc, List.length_cons] at fails
      rwa [Nat.add_assoc, Nat.add_comm 1]
    rw [List.cons_append, entriesOf, bind_of_eq_ok first, later]
    rfl

theorem ofData_eq_error {e : Error} (some : entriesIn d ≠ []) (fails : entriesOf [] 1 (entriesIn d) = .error e) :
    ofData d = .error e := by
  unfold entriesIn at some fails
  unfold ofData
  cases functions : d.get "functions" with
  | list items =>
    rw [functions] at some fails
    obtain ⟨first, rest, rfl⟩ := List.exists_cons_of_ne_nil some
    cases d with
    | map entries =>
      dsimp only at fails ⊢
      rw [fails]
      rfl
    | _ => cases functions
  | _ =>
    rw [functions] at some
    exact absurd rfl some

/-- Data is refused as a worksheet with a fault of the worksheet, or with a fault that escapes: a scalar
for operations, an integer beyond every double among area points, or an integer too long to be written.
With any of these it is refused. And where the entries before it can be read, an entry with an expression
and a new id whose operations are a scalar other than null is refused because a scalar has no items. -/
theorem ofData_refuses (d : Data) :
    (∀ e, ofData d = .error e → e.IsRefusal (Escapes d)) ∧
    (∀ w, ofData d = .ok w → ∀ e, ¬ Escapes d e) ∧
    ∀ before entry after es id kind, entriesIn d = before ++ entry :: after →
      entriesOf [] 1 before = .ok es →
      (entry.get? "expr").isSome → WorksheetEntry.idOf entry (before.length + 1) = .ok id →
      id ∉ es.map (·.id) →
      entry.get "operations" ≠ .null → (entry.get "operations").scalarKind? = some kind →
      ofData d = .error (.notIterable kind) := by
  have read := ofData_meets d
  refine ⟨fun e refused => ?_, fun w accepted => ?_, ?_⟩
  · rw [refused] at read
    exact read
  · rw [accepted] at read
    exact read
  · intro before entry after es id kind given earlier expression named new operations scalar
    have fails : WorksheetEntry.ofData ((es.map (·.id)).reverse ++ []) (1 + before.length) entry =
        .error (.notIterable kind) := by
      have unknown : id ∉ (es.map (·.id)).reverse ++ [] := by rwa [List.append_nil, List.mem_reverse]
      refine WorksheetEntry.ofData_scalar expression ?_ unknown operations scalar
      rwa [Nat.add_comm]
    refine ofData_eq_error ?_ ?_
    · rw [given]
      exact List.append_ne_nil_of_right_ne_nil _ (List.cons_ne_nil _ _)
    · rw [given]
      exact entriesOf_eq_error earlier fails

/-- The second of two entries has true for its operations. -/
theorem ofData_refuses_truth : ∃ d,
    entriesIn d = [.record [("expr", .text "y=2x")],
      .record [("expr", .text "y=x^2"), ("operations", .bool true)]] ∧
    ofData d = .error (.notIterable "bool") ∧ Escapes d (.notIterable "bool") := by
  let line : Data := .record [("expr", .text "y=2x")]
  let square : Data := .record [("expr", .text "y=x^2"), ("operations", .bool true)]
  let d : Data := .record [("functions", .list [line, square])]
  have refused : ofData d = .error (.notIterable "bool") :=
    (ofData_refuses d).2.2 [line] square [] [⟨"f1", "y=2x", none, [], ""⟩] "f2" "bool" rfl rfl rfl
      (by decide +kernel) (by decide) nofun rfl
  refine ⟨d, rfl, refused, ?_⟩
  rcases (ofData_refuses d).1 _ refused with ⟨cause, other⟩ | escapes
  · cases other
  · exact escapes

/-- Malformed sheets of one entry that are refused with faults which are none of the worksheet. -/
theorem ofData_other_faults :
    ofData (.record [("functions", .list [.record [("expr", .text "y=x"), ("operations", .int 5)]])]) =
      .error (.notIterable "int") ∧
    ofData (.record [("functions", .list [.record
      [("expr", .text "y=x"), ("area_points", .list [.int (10 ^ 400)])]])]) =
      .error (.conversion .integerTooLarge) ∧
    ∀ cause, .notIterable "int" ≠ Error.worksheet cause ∧
      .conversion .integerTooLarge ≠ Error.worksheet cause :=
  ⟨rfl, by decide +kernel, fun _ => ⟨nofun, nofun⟩⟩

end Worksheet
end FunctionStudy
