import Mathlib.Data.List.Perm.Subperm
import LocalizationMemory.Proofs.Archive.Growth

/-!
# Names and links

What can be told of mods and aliases without their ids: the names of the mods, and the
links, each an alias with the name of the mod that it stands for. Making a mod adds its
name if it is not there, and its link unless the alias is blank or taken.

## Main definitions

* `Archive.modNames`, `Archive.links` — the names, and the aliases by name
* `Archive.newLink?` — the link that making a mod adds
* `Archive.LinkedOnce` — a name that is new has one link at most

## Main results

* `Archive.mem_modNames_addMod`, `Archive.links_addMod` — what making a mod does to both
* `Archive.exists_addMod_iff` — when a mod can be made
* `Archive.exists_addMod_of_links` — it can be where there are fewer names
-/

namespace LocalizationMemory.Archive

variable {a b c : Archive} {now : Millis} {name : String} {remoteId : Option String} {id : RowId}

/-- The names of the mods. -/
def modNames (a : Archive) : List String := a.mods.rows.map (·.name)

/-- The aliases, each with the name of the mod that it stands for. -/
def links (a : Archive) : List (String × String) :=
  a.aliases.rows.filterMap fun l => (a.modWithId? l.modId).map fun m => (m.name, l.remoteId)

/-- The link that making a mod adds: none if the alias is blank or taken. -/
def newLink? (a : Archive) (name : String) (remoteId : Option String) : Option (String × String) :=
  ((remoteId.filter (!Text.allBlank ·)).filter fun id => !a.aliases.rows.any (·.remoteId == id)).map
    (name, ·)

/-- A name that is new in an archive has one link at most. -/
def LinkedOnce (a b : Archive) : Prop :=
  ∀ name ∉ a.modNames, ∀ x y, (name, x) ∈ b.links → (name, y) ∈ b.links → x = y

theorem LinkedOnce.of_nodup (h : (b.links.map (·.1)).Nodup) : a.LinkedOnce b := by
  intro name _ x y hx hy
  exact congrArg Prod.snd (List.inj_on_of_nodup_map h hx hy rfl)

theorem mod?_eq_none_iff : a.mod? name = none ↔ name ∉ a.modNames := by
  simp [mod?, modNames]

theorem exists_mod?_iff : (∃ m, a.mod? name = some m) ↔ name ∈ a.modNames := by
  rw [← Option.isSome_iff_exists, ← not_iff_not, Bool.not_eq_true, Option.isSome_eq_false_iff,
    Option.isNone_iff_eq_none]
  exact mod?_eq_none_iff

/-- A link is of a mod that is there. -/
theorem fst_mem_modNames {l : String × String} (hl : l ∈ a.links) : l.1 ∈ a.modNames := by
  obtain ⟨_, -, same⟩ := List.mem_filterMap.mp hl
  obtain ⟨m, found, rfl⟩ := Option.map_eq_some_iff.mp same
  exact List.mem_map_of_mem (List.mem_of_find?_eq_some found)

/-- Every alias is in a link. -/
theorem map_snd_links (ha : a.Consistent) : a.links.map (·.2) = a.aliases.rows.map (·.remoteId) := by
  have all : ∀ l ∈ a.aliases.rows,
      ((a.modWithId? l.modId).map fun m => (m.name, l.remoteId)).map (·.2) = some l.remoteId := by
    intro l hl
    obtain ⟨m, hm, same⟩ := List.mem_map.mp (ha.modOfAlias l hl)
    have found : a.modWithId? l.modId = some m :=
      ha.mods.unique.find?_eq_some_iff.mpr ⟨hm, same⟩
    rw [found]
    rfl
  rw [links, List.map_filterMap, List.filterMap_congr all, ← List.filterMap_eq_map]
  rfl

theorem length_links (ha : a.Consistent) : a.links.length = a.aliases.rows.length := by
  have lengths := congrArg List.length (map_snd_links ha)
  simpa using lengths

/-- The link that is added depends on the links alone. -/
theorem newLink?_congr (ha : a.Consistent) (hb : b.Consistent) (same : b.links = a.links)
    (name : String) (remoteId : Option String) :
    b.newLink? name remoteId = a.newLink? name remoteId := by
  have taken (id : String) :
      b.aliases.rows.any (·.remoteId == id) = a.aliases.rows.any (·.remoteId == id) := by
    have remoteIds : b.aliases.rows.map (·.remoteId) = a.aliases.rows.map (·.remoteId) := by
      rw [← map_snd_links ha, ← map_snd_links hb, same]
    have any := congrArg (List.any · (· == id)) remoteIds
    simpa only [List.any_map, Function.comp_def] using any
  simp only [newLink?, taken]

/-- A new link is of the name, under an alias that is neither blank nor taken. -/
theorem newLink?_eq_some_iff {l : String × String} (ha : a.Consistent) :
    a.newLink? name remoteId = some l ↔
      l.1 = name ∧ remoteId = some l.2 ∧ Text.allBlank l.2 = false ∧
        ∀ other, (other, l.2) ∉ a.links := by
  have free (id : String) :
      a.aliases.rows.any (·.remoteId == id) = false ↔ ∀ other, (other, id) ∉ a.links := by
    have mem : id ∈ a.aliases.rows.map (·.remoteId) ↔ ∃ other, (other, id) ∈ a.links := by
      rw [← map_snd_links ha]
      simp
    rw [← not_exists, ← mem]
    simp
  obtain ⟨first, second⟩ := l
  simp only [newLink?, Option.map_eq_some_iff, Option.filter_eq_some_iff, Bool.not_eq_true', free]
  constructor
  · rintro ⟨id, ⟨⟨rfl, shown⟩, untaken⟩, same⟩
    obtain ⟨rfl, rfl⟩ := Prod.mk.inj same
    exact ⟨rfl, rfl, shown, untaken⟩
  · rintro ⟨rfl, rfl, shown, untaken⟩
    exact ⟨second, ⟨⟨rfl, shown⟩, untaken⟩, rfl⟩

/-! ### Making a mod -/

theorem mem_modNames_insertMod (hb : a.insertMod name now = .ok b) {n : String} :
    n ∈ b.modNames ↔ n ∈ a.modNames ∨ n = name := by
  obtain ⟨-, rfl⟩ := insertMod_eq_ok_iff.mp hb
  simp only [modNames, Table.rows_addUnless]
  split
  · next taken =>
    have mem : name ∈ a.mods.rows.map (·.name) := by simpa using taken
    constructor
    · exact .inl
    · rintro (old | rfl)
      · exact old
      · exact mem
  · simp

/-- A mod changes what no alias stands for. -/
theorem links_insertMod (ha : a.Consistent) (hb : a.insertMod name now = .ok b) :
    b.links = a.links := by
  have consistent := ha.insertMod hb
  obtain ⟨-, rfl⟩ := insertMod_eq_ok_iff.mp hb
  apply List.filterMap_congr
  intro l hl
  obtain ⟨m, hm, same⟩ := List.mem_map.mp (ha.modOfAlias l hl)
  have found : a.modWithId? l.modId = some m :=
    ha.mods.unique.find?_eq_some_iff.mpr ⟨hm, same⟩
  rw [found]
  exact congrArg _ (consistent.mods.unique.find?_eq_some_iff.mpr
    ⟨Table.prefix_rows_addUnless.subset hm, same⟩)

/-- An alias that is not taken is linked to the name of its mod. -/
theorem links_insertAlias {m : ModRow} {remoteId : String} (found : a.modWithId? m.id = some m)
    (hb : a.insertAlias m.id remoteId = .ok b) :
    b.links = a.links ++
      if a.aliases.rows.any (·.remoteId == remoteId) then [] else [(m.name, remoteId)] := by
  obtain ⟨-, rfl⟩ := insertAlias_eq_ok_iff.mp hb
  rw [modWithId?] at found
  simp only [links, modWithId?, Table.rows_addUnless]
  split
  · exact (List.append_nil _).symm
  · simp [found]

theorem mem_modNames_addMod (hb : a.addMod name remoteId now = .ok (id, b)) {n : String} :
    n ∈ b.modNames ↔ n ∈ a.modNames ∨ n = name := by
  obtain ⟨c, m, hc, -, -, last⟩ := addMod_eq_ok_iff.mp hb
  rw [← mem_modNames_insertMod hc]
  split at last
  · rw [last]
  · obtain ⟨-, rfl⟩ := insertAlias_eq_ok_iff.mp last
    rfl

/-- Making a mod adds its link. -/
theorem links_addMod (ha : a.Consistent) (hb : a.addMod name remoteId now = .ok (id, b)) :
    b.links = a.links ++ (a.newLink? name remoteId).toList := by
  obtain ⟨c, m, hc, found, rfl, last⟩ := addMod_eq_ok_iff.mp hb
  have consistent := ha.insertMod hc
  obtain ⟨mem, named⟩ := consistent.modNames.find?_eq_some_iff.mp found
  have aliases : c.aliases = a.aliases := by
    obtain ⟨-, rfl⟩ := insertMod_eq_ok_iff.mp hc
    rfl
  rw [newLink?]
  cases hr : remoteId.filter (!Text.allBlank ·) with
  | none =>
    simp only [hr] at last
    rw [last, links_insertMod ha hc]
    simp
  | some remoteId =>
    simp only [hr] at last
    have known : c.modWithId? m.id = some m :=
      consistent.mods.unique.find?_eq_some_iff.mpr ⟨mem, rfl⟩
    rw [links_insertAlias known last, links_insertMod ha hc, aliases, named]
    cases taken : a.aliases.rows.any (·.remoteId == remoteId) <;>
      simp [Option.filter_some, taken]

/-- The mod of the name is the one whose id is given. -/
theorem mod?_addMod (hb : a.addMod name remoteId now = .ok (id, b)) :
    ∃ m, b.mod? name = some m ∧ m.id = id := by
  obtain ⟨c, m, -, found, rfl, last⟩ := addMod_eq_ok_iff.mp hb
  refine ⟨m, ?_, rfl⟩
  split at last
  · rw [last]
    exact found
  · obtain ⟨-, rfl⟩ := insertAlias_eq_ok_iff.mp last
    exact found

/-- A mod is made if no rule refuses it or its alias. -/
theorem exists_addMod_iff : (∃ id b, a.addMod name remoteId now = .ok (id, b)) ↔
    a.refusal? .mods = none ∧
      ((remoteId.filter (!Text.allBlank ·)).isSome → a.refusal? .modIdentities = none) := by
  constructor
  · rintro ⟨id, b, hb⟩
    obtain ⟨c, m, hc, -, -, last⟩ := addMod_eq_ok_iff.mp hb
    obtain ⟨accepted, rfl⟩ := insertMod_eq_ok_iff.mp hc
    refine ⟨accepted, fun linked => ?_⟩
    obtain ⟨remoteId', hr⟩ := Option.isSome_iff_exists.mp linked
    simp only [hr] at last
    exact (insertAlias_eq_ok_iff.mp last).1
  · rintro ⟨accepted, linked⟩
    obtain ⟨c, hc⟩ : ∃ c, a.insertMod name now = .ok c :=
      ⟨_, insertMod_eq_ok_iff.mpr ⟨accepted, rfl⟩⟩
    obtain ⟨m, found⟩ := exists_mod?_iff.mpr ((mem_modNames_insertMod hc).mpr (.inr rfl))
    cases hr : remoteId.filter (!Text.allBlank ·) with
    | none => exact ⟨_, c, addMod_eq_ok_iff.mpr ⟨c, m, hc, found, rfl, by simp [hr]⟩⟩
    | some remoteId' =>
      have free : c.refusal? .modIdentities = none := by
        obtain ⟨-, rfl⟩ := insertMod_eq_ok_iff.mp hc
        exact linked (by simp [hr])
      obtain ⟨b, hb⟩ : ∃ b, c.insertAlias m.id remoteId' = .ok b :=
        ⟨_, insertAlias_eq_ok_iff.mpr ⟨free, rfl⟩⟩
      exact ⟨_, b, addMod_eq_ok_iff.mpr ⟨c, m, hc, found, rfl, by simp [hr, hb]⟩⟩

/-- Rules refuse no insert into a table that they let grow further. -/
theorem refusal?_eq_none_of_le {table : TableName} (rules : b.rules = a.rules)
    (fewer : b.rowCount table ≤ a.rowCount table) (accepted : a.refusal? table = none) :
    b.refusal? table = none := by
  simp only [refusal?, Option.map_eq_none_iff, List.find?_eq_none, rules] at accepted ⊢
  intro rule hrule refuses
  refine accepted rule hrule ?_
  simp only [Bool.and_eq_true, decide_eq_true_eq] at refuses ⊢
  exact ⟨refuses.1, refuses.2.trans fewer⟩

/-- A mod that can be made can be made where there are fewer names, and the same links. -/
theorem exists_addMod_of_links (ha : a.Consistent) (hb : b.Consistent) (rules : b.rules = a.rules)
    (names : b.modNames ⊆ a.modNames) (links : b.links = a.links)
    (made : a.addMod name remoteId now = .ok (id, c)) :
    ∃ id d, b.addMod name remoteId now = .ok (id, d) := by
  obtain ⟨accepted, linked⟩ := exists_addMod_iff.mp ⟨id, c, made⟩
  have mods : b.rowCount .mods ≤ a.rowCount .mods := by
    have lengths := (List.Nodup.subperm hb.modNames names).length_le
    simpa [modNames, rowCount] using lengths
  have aliases : b.rowCount .modIdentities ≤ a.rowCount .modIdentities := by
    rw [rowCount, rowCount, ← length_links ha, ← length_links hb, links]
  exact exists_addMod_iff.mpr ⟨refusal?_eq_none_of_le rules mods accepted,
    fun h => refusal?_eq_none_of_le rules aliases (linked h)⟩

end LocalizationMemory.Archive
