import ChunkPrune.Engine.Basic
import ChunkPrune.Proofs.Json.Compact

/-!
# Configurations of the engine

Under its library, a configuration has a flag at each key of the flags, and the characteristics at
the reserved key. It is three levels deeper than the characteristics, and its numbers are theirs.
-/

namespace ChunkPrune

/-- The members that stand under the library in a configuration. -/
def configMembers (flags : Table String Bool) (characteristics : Characteristics) :
    Table String Json :=
  (flags.map fun _ used => Json.bool used).insert characteristicsKey characteristics.toJson

theorem engineConfig_eq (library : String) (flags : Table String Bool)
    (characteristics : Characteristics) :
    engineConfig library flags characteristics =
      .object [(librariesKey, .object
        [(library, .object (configMembers flags characteristics).entries)])] := rfl

theorem get?_configMembers_key (flags : Table String Bool) (characteristics : Characteristics) :
    (configMembers flags characteristics).get? characteristicsKey =
      some characteristics.toJson := by
  rw [configMembers, Table.get?_insert, if_pos rfl]

theorem get?_configMembers {flags : Table String Bool} {characteristics : Characteristics}
    {key : String} (notReserved : key ≠ characteristicsKey) :
    (configMembers flags characteristics).get? key = (flags.get? key).map Json.bool := by
  have different : characteristicsKey ≠ key := fun same => notReserved same.symm
  rw [configMembers, Table.get?_insert, if_neg different, Table.get?_map]

theorem get?_configMembers_eq_some {flags : Table String Bool} {characteristics : Characteristics}
    {key : String} (notReserved : key ≠ characteristicsKey) {value : Json} :
    (configMembers flags characteristics).get? key = some value ↔
      ∃ used, flags.get? key = some used ∧ value = .bool used := by
  rw [get?_configMembers notReserved, Option.map_eq_some_iff]
  constructor
  · rintro ⟨used, flag, same⟩
    exact ⟨used, flag, same.symm⟩
  · rintro ⟨used, flag, same⟩
    exact ⟨used, flag, same.symm⟩

/-- Under the library and the reserved key, a configuration has the characteristics. -/
theorem get?_engineConfig (library : String) (flags : Table String Bool)
    (characteristics : Characteristics) :
    (((engineConfig library flags characteristics).get? librariesKey).bind
      (·.get? library)).bind (·.get? characteristicsKey) = some characteristics.toJson := by
  rw [engineConfig_eq, Json.get?, Entries.get?_singleton, Option.bind_some, Json.get?,
    Entries.get?_singleton, Option.bind_some]
  exact get?_configMembers_key flags characteristics

/-! ## Depth and numbers -/

section Values

variable {characteristics : Characteristics}

/-- A member of a configuration is a flag or the characteristics. -/
theorem value_of_mem_configMembers {flags : Table String Bool} {member : String × Json}
    (listed : member ∈ (configMembers flags characteristics).entries) :
    (∃ used, member.2 = .bool used) ∨ member.2 = characteristics.toJson := by
  have found := Table.mem_entries_iff.mp listed
  by_cases reserved : member.1 = characteristicsKey
  · rw [reserved, get?_configMembers_key] at found
    exact Or.inr (Option.some.inj found).symm
  · obtain ⟨used, -, same⟩ := (get?_configMembers_eq_some reserved).mp found
    exact Or.inl ⟨used, same⟩

theorem sound_engineConfig {numbers : Json.Number → Prop}
    (sound : Json.Sound numbers characteristics.toJson) (library : String)
    (flags : Table String Bool) :
    Json.Sound numbers (engineConfig library flags characteristics) := by
  have single : ∀ (key : String) (value : Json), Json.Sound numbers value →
      Json.Sound numbers (.object [(key, value)]) := by
    intro key value valueSound
    refine .object (List.pairwise_singleton _ _) fun member listed => ?_
    rw [List.mem_singleton.mp listed]
    exact valueSound
  rw [engineConfig_eq]
  refine single _ _ (single _ _ (.object (Table.ordered _) fun member listed => ?_))
  rcases value_of_mem_configMembers listed with ⟨used, same⟩ | same
  · rw [same]
    exact .bool used
  · rw [same]
    exact sound

theorem depth_engineConfig (library : String) (flags : Table String Bool)
    (characteristics : Characteristics) :
    (engineConfig library flags characteristics).depth = characteristics.toJson.depth + 3 := by
  have members : Json.depthMembers (configMembers flags characteristics).entries =
      characteristics.toJson.depth := by
    apply Nat.le_antisymm
    · refine Json.admits_some_iff.mp (Json.admits_depthMembers_iff.mpr fun member listed => ?_)
      rw [Json.admits_some_iff]
      rcases value_of_mem_configMembers listed with ⟨used, same⟩ | same
      · rw [same]
        exact Nat.zero_le _
      · rw [same]
    · exact Json.depth_le_of_mem
        (Entries.mem_of_get? (get?_configMembers_key flags characteristics))
  simp only [engineConfig_eq, Json.depth, Json.depthMembers, members, Nat.max_zero]

end Values

end ChunkPrune
