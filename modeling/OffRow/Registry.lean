import OffRow.Pool.Basic

namespace OffRow

structure Registry where
  pools : Vector (Option PoolId) SizeClass.count
  firstChunkBytes : Nat
  firstChunkBytes_pos : 0 < firstChunkBytes
  policy : DropPolicy

namespace Registry

def defaultFirstChunkBytes : Nat := 16384

theorem defaultFirstChunkBytes_pos : 0 < defaultFirstChunkBytes := by decide

def new (firstChunkBytes : Nat) (h : 0 < firstChunkBytes) (policy : DropPolicy) : Registry where
  pools := .replicate _ none
  firstChunkBytes := firstChunkBytes
  firstChunkBytes_pos := h
  policy := policy

def standard : Registry := new defaultFirstChunkBytes defaultFirstChunkBytes_pos .mayDropItems

def pool? (r : Registry) (c : SizeClass) : Option PoolId := r.pools.get ⟨c.index, c.index_lt⟩

def setPool (r : Registry) (c : SizeClass) (p : PoolId) : Registry :=
  { r with pools := r.pools.set c.index (some p) c.index_lt }

def poolIds (r : Registry) : List PoolId := r.pools.toList.filterMap id

end Registry

end OffRow
