import MapServer.Mapfile.SubstitutedStrings

namespace MapServer
open Lib.Placeholders List Option

variable (msEvalRegex : CString → CString → Bool) (getenv : CString → Option CString) (params : List (CString × CString))

def SameEntries (map other : MapStrings) : Prop :=
  ∀ l place, other.get l place = map.get l place ∧
    List.Forall₂ (fun table entry : SoundTable => ∀ key, entry.lookup key = table.lookup key) (map.blocks l place)
      (other.blocks l place)

variable {msEvalRegex getenv params}

section Blocks
variable {blocks : List SoundTable} (noEnv : ∀ table ∈ blocks, ∀ key, (table.lookup key).isSome = true → getenv key = none)
include noEnv

end Blocks

theorem SameEntries.refl (map : MapStrings) : SameEntries map map := by
  intro l place
  refine ⟨rfl, ?_⟩
  rw [forall₂_same]
  exact fun _ _ _ => rfl

end MapServer
