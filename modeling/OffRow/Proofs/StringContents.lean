import OffRow.Proofs.Turns

namespace OffRow

/-- After any run the bytes of the strings are those that the answers tell of; each of them can be
read, and every further answer fits them. -/
theorem strings_refine_map (ts : List (Turn Request)) :
    let e := Engine.start.after Request.ask ts
    let m := Contents.replay .empty (Engine.start.reports Request.ask ts)
    e.store.contents = m ∧ (∀ h, h ∈ e.strings ↔ (m h).isSome) ∧
      (∀ h b, m h = some b → (Store.read h pure).run e.store = ⟨.ok b, e.store, []⟩) ∧
      ∀ t : Turn Request, e.allows t.action →
        Contents.Fits m (t.action, (e.turn Request.ask t).result) := by
  intro e m
  have he : e.Valid := Engine.after_valid ts
  have hm : e.store.contents = m := Engine.contents_after Engine.start_valid ts
  refine ⟨hm, ?_, ?_, ?_⟩
  · intro h
    rw [← hm]
    exact he.strings_iff h
  · intro h b hb
    exact Store.read_run he.consistent.toPlaced (hm ▸ hb)
  · intro t ht
    rw [← hm]
    exact (Engine.turn_step he t).2.2.1 ht

def writtenAndMoved : List (Turn Request) :=
  [⟨.openRegistry 144 (by decide) .mayDropItems, 0, some⟩, ⟨.create ⟨0⟩ 4, 0, some⟩,
    ⟨.create ⟨0⟩ 4, 0, some⟩, ⟨.write ⟨1⟩, 0, some⟩, ⟨.overwrite ⟨1⟩ 1 ⟨#[7, 8]⟩, 0, some⟩,
    ⟨.endAccess, 0, some⟩, ⟨.destroy ⟨0⟩, 0, some⟩]

theorem strings_refine_map_moved :
    let e := Engine.start.after Request.ask writtenAndMoved
    (e.store.handles.get? ⟨1⟩).map Handle.location = some (.block ⟨0⟩ ⟨0, 0⟩) ∧ e.strings = [⟨1⟩] ∧
      (Store.read ⟨1⟩ pure).run e.store = ⟨.ok ⟨#[0, 7, 8, 0]⟩, e.store, []⟩ := by
  have hbytes : Contents.replay .empty (Engine.start.reports Request.ask writtenAndMoved) ⟨1⟩ =
      some ⟨#[0, 7, 8, 0]⟩ := by decide +kernel
  obtain ⟨-, -, hread, -⟩ := strings_refine_map writtenAndMoved
  exact ⟨by decide +kernel, by decide +kernel, hread ⟨1⟩ _ hbytes⟩

end OffRow
