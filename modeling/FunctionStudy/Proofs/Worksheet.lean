import FunctionStudy.Proofs.Data
import FunctionStudy.Proofs.Study.Layouts
import FunctionStudy.Worksheet

/-! Entries on their own. The entries of a worksheet share one registry, and still a report is the
one that the entry has by itself, since the registry starts over. -/

namespace FunctionStudy

/-- The report of an entry that is studied by itself, on a new registry. -/
def WorksheetEntry.report (settings : Settings) (e : WorksheetEntry) (layout : Layout) : Report :=
  (reportStudy settings .empty e.expression e.operations e.areaPoints layout).1

/-- The report of each entry is the same in both layouts that the entry has. -/
def Worksheet.AreReadAlike (settings : Settings) (w : Worksheet) (layouts others : WorksheetEntry → Layout) : Prop :=
  ∀ e ∈ w.entries, (e.report settings (layouts e)).AreReadAlike e.areaPoints (layouts e) (others e)

namespace Worksheet

section Ids

theorem ofData_id (taken : List String) (position : ℕ) (d : Data) :
    Meets (fun _ => True) (fun e => e.id ∉ taken) (WorksheetEntry.ofData taken position d) := by
  unfold WorksheetEntry.ofData
  split
  · trivial
  · refine (Meets.any _).bind fun id _ => ?_
    dsimp only
    split_ifs with repeated
    · trivial
    · refine (Meets.any _).bind fun operations _ => (Meets.any _).bind fun points _ => ?_
      refine (Meets.any _).bind fun expression _ => (Meets.any _).bind fun notes _ => ?_
      exact fun known => repeated (List.contains_iff_mem.mpr known)

theorem entriesOf_ids (taken : List String) (position : ℕ) (ds : List Data) :
    Meets (fun _ => True) (fun es => (es.map (·.id)).Nodup ∧ ∀ e ∈ es, e.id ∉ taken)
      (entriesOf taken position ds) := by
  induction ds generalizing taken position with
  | nil => exact ⟨.nil, List.forall_mem_nil _⟩
  | cons d rest ih =>
    unfold entriesOf
    refine (ofData_id taken position d).bind fun e new => ?_
    refine (ih (e.id :: taken) (position + 1)).bind fun es ⟨distinct, apart⟩ => ?_
    refine ⟨List.nodup_cons.mpr ⟨fun known => ?_, distinct⟩, List.forall_mem_cons.mpr ⟨new, fun f hf => ?_⟩⟩
    · obtain ⟨f, hf, same⟩ := List.mem_map.mp known
      exact apart f hf (same ▸ List.mem_cons_self)
    · exact fun known => apart f hf (List.mem_cons_of_mem _ known)

theorem ofData_ids {d : Data} {w : Worksheet} (accepted : ofData d = .ok w) : (w.entries.map (·.id)).Nodup := by
  have ids : Meets (fun _ => True) (fun w => (w.entries.map (·.id)).Nodup) (ofData d) := by
    unfold ofData
    split
    · split
      · exact (entriesOf_ids [] 1 _).bind fun es known => (Meets.any _).bind fun _ _ => known.1
      · trivial
    · trivial
  rw [accepted] at ids
  exact ids

end Ids

section Runs

variable {settings : Settings} {layouts others : WorksheetEntry → Layout}

theorem run_from (es : List WorksheetEntry) (registry : Registry) (done : List (String × Report))
    (distinct : (es.map (·.id)).Nodup) (new : ∀ e ∈ es, e.id ∉ done.map Prod.fst) :
    (es.foldl (fun (done, registry) e =>
        let (report, left) := e.study settings registry.reset (layouts e)
        (Data.put done e.id report, left)) (done, registry)).1 =
      done ++ es.map fun e => (e.id, e.report settings (layouts e)) := by
  induction es generalizing registry done with
  | nil => exact (List.append_nil done).symm
  | cons e rest ih =>
    obtain ⟨apart, distinct⟩ := List.nodup_cons.mp distinct
    obtain ⟨fresh, new⟩ := List.forall_mem_cons.mp new
    rw [List.foldl_cons]
    dsimp only
    rw [Data.put_of_notMem fresh, ih _ _ distinct]
    · exact List.append_assoc _ _ _
    · intro f hf known
      rw [List.map_append, List.mem_append] at known
      rcases known with known | same
      · exact new f hf known
      · exact apart (List.mem_map.mpr ⟨f, hf, List.mem_singleton.mp same⟩)

theorem run_eq {w : Worksheet} (distinct : (w.entries.map (·.id)).Nodup) (registry : Registry)
    (alike : w.AreReadAlike settings layouts others) :
    (w.run settings registry layouts).1 = w.entries.map fun e => (e.id, e.report settings (others e)) := by
  refine (run_from w.entries registry [] distinct fun _ _ => List.not_mem_nil).trans ?_
  refine List.map_congr_left fun e he => ?_
  rw [WorksheetEntry.report, WorksheetEntry.report, reportStudy_congr (alike e he)]

end Runs

end Worksheet
end FunctionStudy
