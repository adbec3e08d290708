import DbfAnonymizer.Lib.KeyedTable
import DbfAnonymizer.Transforms.Text
import DbfAnonymizer.Vault.State

/-! The text observations that pass one spools: one strictest width for each original. -/
namespace DbfAnonymizer.Engine
open Transforms Lib

structure TextSpool where
  observations : KeyedTable Text ℕ
  encodings : List Text

namespace TextSpool

def empty : TextSpool := ⟨.empty, []⟩

/-- Records one occurrence; an original seen before keeps the smaller width. -/
def observeText (spool : TextSpool) (value : Text) (byteWidth : ℕ) : TextSpool :=
  let minWidth := match spool.observations.lookup value with
    | none => byteWidth
    | some previous => min previous byteWidth
  { spool with observations := spool.observations.upsert value minWidth }

def observeTextEncoding (spool : TextSpool) (encoding : Text) : TextSpool :=
  if encoding ∈ spool.encodings then spool else { spool with encodings := spool.encodings ++ [encoding] }

def dropTextObservation (spool : TextSpool) (value : Text) : TextSpool :=
  { spool with observations := spool.observations.erase value }

/-- `ORDER BY min_width ASC, canonical ASC`. -/
def textObservations (spool : TextSpool) : List (Text × ℕ) :=
  spool.observations.rows.insertionSort fun a b => a.2 < b.2 ∨ a.2 = b.2 ∧ a.1 ≤ b.1

theorem textObservations_perm (spool : TextSpool) : spool.textObservations.Perm spool.observations.rows :=
  List.perm_insertionSort _ _

theorem nodup_originals (spool : TextSpool) : (spool.textObservations.map Prod.fst).Nodup :=
  (spool.textObservations_perm.map Prod.fst).nodup_iff.mpr spool.observations.keys_nodup

@[simp] theorem mem_textObservations {spool : TextSpool} {row : Text × ℕ} :
    row ∈ spool.textObservations ↔ row ∈ spool.observations.rows :=
  spool.textObservations_perm.mem_iff

end TextSpool
end DbfAnonymizer.Engine
