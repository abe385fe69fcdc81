import IndexAccess.Collation

/-!
# Planner settings

Settings say whether unions of indexes are planned, which built-in collation test is in force, and
whether estimates that grow are refused when they are recorded.  A planning context adds the
collation test itself, which may also be one of the caller's own.
-/

namespace IndexAccess

structure Settings where
  unions : Bool
  policy : CollationRule
  refuseGrowth : Bool
  deriving DecidableEq

namespace Settings

def standard : Settings := ⟨true, .families, true⟩

/-- The keys of a settings document, in the order of the fields. -/
def unionsKey : String := "index_merge"
def policyKey : String := "collation_policy"
def refuseGrowthKey : String := "check_selectivity"

/-- The settings as a JSON document without blanks. -/
def toJson (settings : Settings) : String :=
  let field (key value : String) : String := "\"" ++ key ++ "\":" ++ value
  let fields :=
    [field unionsKey (toString settings.unions),
      field policyKey ("\"" ++ settings.policy.label ++ "\""),
      field refuseGrowthKey (toString settings.refuseGrowth)]
  "\x7b" ++ ",".intercalate fields ++ "\x7d"

/-- One line for diagnostics; what a context holds besides its settings is left out. -/
def describe (settings : Settings) : String :=
  let policy := match settings.policy with
    | .families => "Families"
    | .exact => "Exact"
  let fields :=
    [unionsKey ++ ": " ++ toString settings.unions, policyKey ++ ": " ++ policy,
      refuseGrowthKey ++ ": " ++ toString settings.refuseGrowth]
  "PlanContext \x7b config: PlannerConfig \x7b " ++ ", ".intercalate fields ++ " \x7d, .. \x7d"

end Settings

structure Context where
  settings : Settings
  compatible : Compatibility

/-- The context whose collation test is the one that the settings name. -/
def Context.ofSettings (settings : Settings) : Context :=
  ⟨settings, settings.policy.compatibility⟩

end IndexAccess
