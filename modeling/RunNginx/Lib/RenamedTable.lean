import RunNginx.Lib.Table

/-!
# Tables under other names

A table whose keys are given other names, no two the same one, holds what it held: its entries
are written and removed under the new names as under the old ones.
-/

namespace Table

variable {α β γ δ : Type} {name : α → γ} (hname : Function.Injective name) (g : β → δ)

/-- The entry of a key under its other name. -/
def renamed (name : α → γ) (g : β → δ) (e : Sigma fun _ : α => β) : Sigma fun _ : γ => δ :=
  ⟨name e.1, g e.2⟩

theorem keys_map_renamed
    (entries : List (Sigma fun _ : α => β)) :
    (entries.map (renamed name g)).keys = entries.keys.map name := by
  unfold List.keys
  rw [List.map_map, List.map_map]
  rfl

/-- A table under other names. -/
def rename (m : Table α β) : Table γ δ where
  entries := m.entries.map (renamed name g)
  nodupKeys := by
    unfold List.NodupKeys
    rw [keys_map_renamed]
    exact m.nodupKeys.map hname

theorem keys_rename
    (m : Table α β) :
    (rename hname g m).keys = m.keys.map name :=
  keys_map_renamed g m.entries

variable [DecidableEq α] [DecidableEq γ]

theorem kerase_map_renamed
    (hname : Function.Injective name) (a : α) (entries : List (Sigma fun _ : α => β)) :
    (entries.map (renamed name g)).kerase (name a) = (entries.kerase a).map (renamed name g) := by
  have hsame : ∀ e : Sigma fun _ : α => β,
      decide (name a = (renamed name g e).1) = decide (a = e.1) :=
    fun e => decide_eq_decide.mpr hname.eq_iff
  unfold List.kerase
  rw [List.eraseP_map]
  congr 2
  funext e
  exact hsame e

theorem rename_erase
    (a : α) (m : Table α β) :
    rename hname g (m.erase a) = (rename hname g m).erase (name a) :=
  AList.ext (kerase_map_renamed g hname a m.entries).symm

theorem rename_insert
    (a : α) (b : β) (m : Table α β) :
    rename hname g (m.insert a b) = (rename hname g m).insert (name a) (g b) := by
  refine AList.ext ?_
  change renamed name g ⟨a, b⟩ :: (m.entries.kerase a).map (renamed name g) =
    ⟨name a, g b⟩ :: (m.entries.map (renamed name g)).kerase (name a)
  rw [kerase_map_renamed g hname]
  rfl

/-- What stands under a new name. -/
theorem lookup_rename
    (a : α) (m : Table α β) :
    (rename hname g m).lookup (name a) = (m.lookup a).map g := by
  refine Option.ext fun d => ?_
  rw [← Option.mem_def, AList.mem_lookup_iff, Option.map_eq_some_iff]
  have hentry : ∀ b : β, m.lookup a = some b ↔ ⟨a, b⟩ ∈ m.entries :=
    fun b => AList.mem_lookup_iff
  simp only [hentry]
  constructor
  · intro hmem
    obtain ⟨⟨a', b⟩, hb, heq⟩ := List.mem_map.mp hmem
    obtain ⟨ha, hd⟩ := Sigma.mk.inj heq
    obtain rfl := hname ha
    exact ⟨b, hb, eq_of_heq hd⟩
  · rintro ⟨b, hb, rfl⟩
    exact List.mem_map.mpr ⟨⟨a, b⟩, hb, rfl⟩

end Table
