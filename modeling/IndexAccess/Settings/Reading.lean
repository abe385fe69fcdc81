import IndexAccess.Counters
import IndexAccess.Document.Value
import IndexAccess.Settings

/-!
# Documents the planner reads

Settings, counters and type kinds can be given as JSON documents.  Settings that are not given keep
their standard values and an unknown key is an error; counters must all be given.
-/

namespace IndexAccess

open Document

def Settings.form : Reader.Form Settings where
  title := "struct PlannerConfig"
  isOpen := false
  fields := [
    ⟨unionsKey, fun settings ↦ do return { settings with unions := ← Reader.truth }⟩,
    ⟨policyKey, fun settings ↦ do
      return { settings with policy := ← Reader.oneOf CollationRule.label CollationRule.all }⟩,
    ⟨refuseGrowthKey, fun settings ↦ do return { settings with refuseGrowth := ← Reader.truth }⟩]

def Settings.ofText (text : String) : Except Fault Settings :=
  (Document.read (form.read .standard) text).mapError fun flaw ↦
    ⟨.unsupported, .config, "invalid planner config: " ++ flaw.message⟩

def Counters.form : Reader.Form Counters where
  title := "struct PlanCounters"
  isOpen := true
  fields := [
    ⟨"splits", fun c ↦ do return { c with extensions := ← Reader.word }⟩,
    ⟨"columns_bound", fun c ↦ do return { c with columnsBound := ← Reader.word }⟩,
    ⟨"filters_consumed", fun c ↦ do return { c with filtersConsumed := ← Reader.word }⟩,
    ⟨"prefix_matches", fun c ↦ do return { c with partialMatches := ← Reader.word }⟩,
    ⟨"collation_rejections", fun c ↦ do return { c with rejections := ← Reader.word }⟩,
    ⟨"paths_selected", fun c ↦ do return { c with selections := ← Reader.word }⟩,
    ⟨"paths_discarded", fun c ↦ do return { c with discards := ← Reader.word }⟩,
    ⟨"index_merges", fun c ↦ do return { c with unions := ← Reader.word }⟩]

def Counters.ofText (text : String) : Except Flaw Counters :=
  Document.read (form.read .zero) text

def SqlKind.ofText (text : String) : Except Flaw SqlKind :=
  Document.read (Reader.oneOf label all) text

end IndexAccess
