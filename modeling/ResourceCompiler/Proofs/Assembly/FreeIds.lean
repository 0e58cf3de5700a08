import ResourceCompiler.Assembly.Resolver
import Mathlib.Data.List.Nodup
import Mathlib.Data.List.Perm.Subperm

/-!
The ids that imports are given. As long as there is a free id the resolver finds one, and it is the
least one from the desired id on as long as counting up cannot run past the last id.
-/

namespace ResourceCompiler

theorem to_int_succ {id z : Int64} (h : id < z) : (id + 1).toInt = id.toInt + 1 := by
  have hlt := Int64.lt_iff_toInt_lt.mp h
  have hlow := Int64.le_toInt id
  have hhigh := Int64.toInt_le z
  rw [Int64.toInt_maxValue] at hhigh
  rw [Int64.toInt_add, Int64.toInt_one, Int.bmod_eq_of_le (by omega) (by omega)]

theorem to_int_add_of_nat {id : Int64} {k : Nat} (h : id.toInt + k ≤ Int64.maxValue.toInt) :
    (id + Int64.ofNat k).toInt = id.toInt + k := by
  have hlow : -2 ^ 63 ≤ id.toInt := Int64.le_toInt id
  have hsize : Int64.size = 2 ^ 64 := rfl
  rw [Int64.toInt_maxValue] at h
  rw [Int64.toInt_add, Int64.toInt_ofNat', hsize, Int.add_bmod_bmod,
    Int.bmod_eq_of_le (by omega) (by omega)]

theorem succ_le {id z : Int64} (h : id < z) : id + 1 ≤ z := by
  rw [Int64.le_iff_toInt_le, to_int_succ h]
  exact Int64.lt_iff_toInt_lt.mp h

theorem add_of_nat_succ (id : Int64) (k : Nat) :
    id + 1 + Int64.ofNat k = id + Int64.ofNat (k + 1) := by
  rw [Int64.add_assoc, Int64.ofNat_add, Int64.add_comm 1]
  rfl

/-- Counting up from an id meets every id. -/
theorem eq_add_of_nat (id z : Int64) : ∃ k < 0x10000000000000000, z = id + Int64.ofNat k := by
  have hdistance : Int64.ofNat (z - id).toBitVec.toNat = z - id := by
    apply Int64.toBitVec_inj.mp
    rw [Int64.toBitVec_ofNat', BitVec.ofNat_toNat, BitVec.setWidth_eq]
  refine ⟨(z - id).toBitVec.toNat, BitVec.isLt _, ?_⟩
  rw [hdistance, Int64.sub_eq_add_neg, Int64.add_comm, Int64.add_assoc, Int64.add_left_neg,
    Int64.add_zero]

/-- It meets none twice before it has met them all. -/
theorem add_of_nat_inj {id : Int64} {j k : Nat} (hj : j < 0x10000000000000000)
    (hk : k < 0x10000000000000000) (h : id + Int64.ofNat j = id + Int64.ofNat k) : j = k := by
  have hsame := congrArg (·.toBitVec.toNat) ((Int64.add_right_inj id).mp h)
  simp only [Int64.toBitVec_ofNat', BitVec.toNat_ofNat, Nat.reducePow] at hsame
  rwa [Nat.mod_eq_of_lt hj, Nat.mod_eq_of_lt hk] at hsame

/-- So it soon meets one that is not among some ids. -/
theorem exists_not_mem_of_length_lt {ids : List Int64} {n : Nat} (hn : n ≤ 0x10000000000000000)
    (hlength : ids.length < n) (id : Int64) : ∃ k < n, id + Int64.ofNat k ∉ ids := by
  by_contra hnone
  simp only [not_exists, not_and, not_not] at hnone
  have hnodup : ((List.range n).map fun k => id + Int64.ofNat k).Nodup := by
    refine List.nodup_range.map_on fun j hj k hk h => ?_
    rw [List.mem_range] at hj hk
    exact add_of_nat_inj (Nat.lt_of_lt_of_le hj hn) (Nat.lt_of_lt_of_le hk hn) h
  have hsub : (List.range n).map (fun k => id + Int64.ofNat k) ⊆ ids := by
    intro z hz
    obtain ⟨k, hk, rfl⟩ := List.mem_map.mp hz
    exact hnone k (List.mem_range.mp hk)
  have hle := (hnodup.subperm hsub).length_le
  rw [List.length_map, List.length_range] at hle
  exact Nat.not_lt_of_le hle hlength

namespace Resolver

/-- An id that is taken under a code. -/
def Uses (r : Resolver) (code : String) (id : Int64) : Prop := (r.takenIds code).contains id = true

theorem not_uses_empty (code : String) (id : Int64) : ¬empty.Uses code id := by
  simp [Uses, takenIds, empty]

theorem taken_ids_reserve {r : Resolver} {code c : String} {id : Int64} :
    (r.reserve code id).takenIds c =
      if c = code then (r.takenIds code).insert id else r.takenIds c := by
  unfold reserve takenIds
  rw [Std.TreeMap.getElem?_insert]
  by_cases hc : c = code
  · rw [hc, if_pos Std.ReflCmp.compare_self, if_pos rfl, Option.getD_some]
  · rw [if_neg (by simpa using Ne.symm hc), if_neg hc]

theorem uses_reserve {r : Resolver} {code c : String} {id x : Int64} :
    (r.reserve code id).Uses c x ↔ (c = code ∧ x = id) ∨ r.Uses c x := by
  unfold Uses
  rw [taken_ids_reserve]
  by_cases hc : c = code
  · subst hc
    rw [if_pos rfl, Std.TreeSet.contains_insert, Bool.or_eq_true, beq_iff_eq,
      Std.LawfulEqCmp.compare_eq_iff_eq]
    exact or_congr_left ⟨fun h => ⟨rfl, h.symm⟩, fun h => h.2.symm⟩
  · rw [if_neg hc, or_iff_right fun h => hc h.1]

/-- Counting up never runs past a free id. -/
theorem first_free_spec {taken : Std.TreeSet Int64} {steps : Nat} {id z : Int64} (hz : id ≤ z)
    (hfree : taken.contains z = false) :
    id ≤ firstFree taken steps id ∧
      ∀ y, id ≤ y → y < firstFree taken steps id → taken.contains y = true := by
  induction steps generalizing id with
  | zero => exact ⟨Int64.le_refl id, fun y hy hlt => absurd hlt (Int64.not_lt.mpr hy)⟩
  | succ steps ih =>
    rw [firstFree]
    by_cases hid : taken.contains id = true
    · rw [if_pos hid]
      have hlt : id < z := Int64.lt_of_le_of_ne hz fun h => by simp [← h, hid] at hfree
      obtain ⟨hle, hbetween⟩ := ih (succ_le hlt)
      refine ⟨?_, fun y hy hyx => ?_⟩
      · have hsucc := to_int_succ hlt
        rw [Int64.le_iff_toInt_le] at hle ⊢
        omega
      · by_cases he : y = id
        · rwa [he]
        · exact hbetween y (succ_le (Int64.lt_of_le_of_ne hy (Ne.symm he))) hyx
    · rw [if_neg hid]
      exact ⟨Int64.le_refl id, fun y hy hlt => absurd hlt (Int64.not_lt.mpr hy)⟩

/-- If counting up ends on a taken id, it has met nothing else. It may have gone on from the last id
to the first one. -/
theorem taken_of_first_free {taken : Std.TreeSet Int64} {steps : Nat} {id : Int64}
    (h : taken.contains (firstFree taken steps id) = true) :
    ∀ k ≤ steps, taken.contains (id + Int64.ofNat k) = true := by
  induction steps generalizing id with
  | zero =>
    intro k hk
    obtain rfl := Nat.le_zero.mp hk
    simpa [firstFree] using h
  | succ steps ih =>
    rw [firstFree] at h
    by_cases hid : taken.contains id = true
    · rw [if_pos hid] at h
      intro k hk
      cases k with
      | zero => simpa using hid
      | succ k => exact add_of_nat_succ id k ▸ ih h k (Nat.le_of_succ_le_succ hk)
    · rw [if_neg hid] at h
      exact absurd h hid

/-- The id for a new resource is free if any id is, as there are more steps than taken ids. -/
theorem free_id_unused {r : Resolver} {code : String} {desired z : Int64}
    (hfree : ¬r.Uses code z) : ¬r.Uses code (r.freeId code desired) := by
  intro hused
  have hall := taken_of_first_free hused
  obtain ⟨k, hk, rfl⟩ := eq_add_of_nat desired z
  have hlt : (r.takenIds code).size < k := Nat.lt_of_not_le fun hle => hfree (hall k hle)
  have hlength : (r.takenIds code).toList.length < (r.takenIds code).size + 1 :=
    Nat.lt_succ_of_le (Nat.le_of_eq Std.TreeSet.length_toList)
  obtain ⟨j, hj, hnot⟩ := exists_not_mem_of_length_lt (by omega) hlength desired
  exact hnot (Std.TreeSet.mem_toList.mpr (hall j (Nat.le_of_lt_succ hj)))

/-- It is the least free one from the desired one on, if there is one. -/
theorem free_id_least {r : Resolver} {code : String} {desired z : Int64} (hz : desired ≤ z)
    (hfree : ¬r.Uses code z) :
    ¬r.Uses code (r.freeId code desired) ∧ desired ≤ r.freeId code desired ∧
      ∀ id, desired ≤ id → id < r.freeId code desired → r.Uses code id :=
  ⟨free_id_unused hfree, first_free_spec hz (Bool.eq_false_iff.mpr hfree)⟩

theorem resolve_eq_ok {disk : FileSystem} {written : String} {desired : Int64}
    {location : Location} {r r' : Resolver} {file : ImportedFile} :
    resolve disk written desired location r = (.ok file, r') ↔
      disk.readBytes (pathFrom location written) = .ok file.data ∧
        file.typeCode = typeCodeOfPath (pathFrom location written) ∧
        file.name = (pathFrom location written).stem?.getD "" ∧
        file.id = r.freeId file.typeCode desired ∧ r' = r.reserve file.typeCode file.id := by
  unfold resolve
  dsimp only
  cases hread : disk.readBytes (pathFrom location written) with
  | error failure => simp
  | ok data =>
    obtain ⟨id, code, name, contents⟩ := file
    simp only [Prod.mk.injEq, Except.ok.injEq, ImportedFile.mk.injEq]
    constructor
    · intro ⟨⟨hid, hcode, hname, hdata⟩, hr⟩
      rw [hcode] at hid hr
      rw [hid] at hr
      exact ⟨hdata, hcode.symm, hname.symm, hid.symm, hr.symm⟩
    · intro ⟨hdata, hcode, hname, hid, hr⟩
      rw [← hcode, ← hid]
      exact ⟨⟨rfl, rfl, hname.symm, hdata⟩, hr.symm⟩

end Resolver

end ResourceCompiler
