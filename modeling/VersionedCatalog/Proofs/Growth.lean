import VersionedCatalog.Proofs.Turns

/-! # Growth of the history

Writing never touches a version that is there: a slot gets one that is later than all it had
(`Turn.AreReady.grows`). So along a run without a pass the versions of a slot only become more, and
each new one comes after the old ones (`Rows.Grows.trans`).
-/

namespace VersionedCatalog

namespace Storage.Rows

/-- Rows in which a slot has all versions that it had, and others only behind them. -/
structure Grows (rows others : Rows) : Prop where
  kept : ∀ {slot : Slot} {version : Version},
    rows.HasVersion slot version → others.HasVersion slot version
  later : ∀ {slot : Slot} {version : Version}, others.HasVersion slot version →
    rows.HasVersion slot version ∨
      ∀ old, rows.HasVersion slot old → old.stamp < version.stamp

namespace Grows

theorem refl (rows : Rows) : Grows rows rows := ⟨id, Or.inl⟩

theorem trans {rows middle others : Rows} (hFirst : Grows rows middle)
    (hSecond : Grows middle others) : Grows rows others := by
  refine ⟨fun hHas => hSecond.kept (hFirst.kept hHas), fun {slot version} hHas => ?_⟩
  rcases hSecond.later hHas with hMiddle | hLater
  · exact hFirst.later hMiddle
  · exact Or.inr fun old hOld => hLater old (hFirst.kept hOld)

end Grows

end Storage.Rows

open Storage (Rows)

/-- Turns that are ready make the history longer. -/
theorem Turn.AreReady.grows {rows : Rows} {stamp : Stamp} {turns : List Turn}
    (hReady : AreReady rows stamp turns) (raise : Option Bytes) (hShaped : rows.IsShaped) :
    rows.Grows (rows.apply (batch stamp turns raise)) := by
  refine ⟨fun {slot version} hHas => ⟨hHas.stem, ?_⟩, fun {slot version} hHas => ?_⟩
  · rw [hReady.get?_other]
    · exact hHas.found
    · rintro ⟨hSlot, hStamp⟩
      have hBefore := hReady.lt_of_hasVersion hShaped hSlot hHas
      rw [hStamp, Stamp.lt_iff_rank] at hBefore
      exact Nat.lt_irrefl _ hBefore
  · refine (hReady.hasVersion_cases hHas).imp_right ?_
    rintro ⟨hSlot, hStamp⟩ old hOld
    rw [hStamp]
    exact hReady.lt_of_hasVersion hShaped hSlot hOld

end VersionedCatalog
