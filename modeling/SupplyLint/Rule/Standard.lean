import SupplyLint.Rule.AllSecrets
import SupplyLint.Rule.Basic
import SupplyLint.Rule.DebugLogging
import SupplyLint.Rule.DefaultPermissions
import SupplyLint.Rule.ScriptInjection
import SupplyLint.Rule.SelfHostedRunner
import SupplyLint.Rule.UnpinnedPackage
import SupplyLint.Rule.UntrustedCheckout

/-! The rules that every scan runs unless it is given others. -/
set_option autoImplicit false

namespace SupplyLint.Rule

def standardRules : List Rule :=
  [⟨UnpinnedPackage.id, UnpinnedPackage.check⟩,
   ⟨SelfHostedRunner.id, SelfHostedRunner.check⟩,
   ⟨UntrustedCheckout.id, UntrustedCheckout.check⟩,
   ⟨ScriptInjection.id, ScriptInjection.check⟩,
   ⟨AllSecrets.id, AllSecrets.check⟩,
   ⟨DebugLogging.id, DebugLogging.check⟩,
   ⟨DefaultPermissions.id, DefaultPermissions.check⟩]

def standard : Registry :=
  standardRules.foldl Registry.register []

end SupplyLint.Rule
