import AccessAdmin.Database.Statement
import Mathlib.Algebra.GroupWithZero.Nat
import Mathlib.Algebra.Ring.Int.Defs

/-!
# Pages

Page `c` of a listing with `s` rows to a page is meant to show the rows at the positions from
`(c - 1) * s` up to `c * s`. The first of these positions has to be a machine word, or there is no
page at all; and a database is sent that word as a signed number, so it is asked for the same page
only as long as the sign stays out of it.

* `Pagination.meant`: the rows that a page is meant to show.
* `Pagination.window_eq_error_iff`, `Pagination.window_eq`: when a page has a window, and which.
* `Listing.paginate_eq`: a page that there is shows what it is meant to show.
* `Pagination.sent_iff`: when a database is asked for the same page.
* `Pagination.Answers`: what is relied on of a database.
* `Listing.pages`: one page after the other is the listing from its start.
-/

namespace AccessAdmin

variable {α : Type}

namespace Pagination

variable {p : Pagination}

/-- The rows at the positions of the page, in the order of the listing. -/
def meant (p : Pagination) (rows : List α) : List α :=
  (rows.zipIdx.filter fun r => decide (p.first ≤ r.2 ∧ r.2 < p.first + p.size)).map Prod.fst

/-! ## Sizes and positions -/

/-- A page has as many rows as it is asked for, or ten when it is not asked for any. -/
theorem size_eq (p : Pagination) :
    p.size = if 0 < p.pageSize then p.pageSize.toInt.toNat else 10 := by
  unfold size
  by_cases hpos : 0 < p.pageSize
  · have hnot : ¬p.pageSize ≤ 0 := fun hle => by
      have hlt := Int64.lt_iff_toInt_lt.1 hpos
      have hle := Int64.le_iff_toInt_le.1 hle
      omega
    rw [if_pos hpos, if_neg hnot]
  · have hle : p.pageSize ≤ 0 := Int64.not_lt.1 hpos
    rw [if_neg hpos, if_pos hle]
    decide

theorem size_lt (p : Pagination) : p.size < 2 ^ 63 := by
  rw [size_eq]
  split
  · have := p.pageSize.toInt_lt
    omega
  · decide

theorem toNat_page (p : Pagination) : p.page.toNat = max p.current.toNat 1 := by
  unfold page
  split
  · next h => simp [h]
  · next h =>
    have hpos : p.current.toNat ≠ 0 := fun h0 => h (UInt32.toNat_inj.1 h0)
    omega

theorem first_eq (p : Pagination) : p.first = (max p.current.toNat 1 - 1) * p.size := by
  rw [first, toNat_page]

theorem fits_iff : p.fits = true ↔ p.pageSize = everyRow ∨ p.first < 2 ^ 64 := by
  have hword : UInt64.size = 2 ^ 64 := by decide
  simp only [fits, Bool.or_eq_true, decide_eq_true_eq, hword]

/-- A page of every row has no window to it. -/
theorem window_everyRow (h : p.pageSize = everyRow) : p.window = .ok none := if_pos h

/-- The window of a page has its first position and its size, as long as there is a word for the
position. -/
theorem window_eq (h : p.pageSize ≠ everyRow) (hfits : p.first < 2 ^ 64) :
    ∃ w, p.window = .ok (some w) ∧ w.limit.toNat = p.size ∧ w.offset.toNat = p.first := by
  have hsize : p.size < 2 ^ 64 := Nat.lt_trans p.size_lt (by decide)
  refine ⟨⟨.ofNatLT p.first hfits, .ofNat p.size⟩, ?_, ?_, ?_⟩
  · rw [window, if_neg h]
    exact dif_pos hfits
  · exact UInt64.toNat_ofNat_of_lt' hsize
  · exact UInt64.toNat_ofNatLT

theorem window_eq_error_iff :
    p.window = .error ⟨⟩ ↔ p.pageSize ≠ everyRow ∧ 2 ^ 64 ≤ p.first := by
  unfold window
  split
  · next h => exact iff_of_false nofun fun hne => hne.1 h
  · next h =>
    split
    · next hfits => exact iff_of_false nofun fun hfar => Nat.not_lt.2 hfar.2 hfits
    · next hfits => exact iff_of_true rfl ⟨h, Nat.not_lt.1 hfits⟩

/-! ## The rows meant -/

/-- The rows of a list between two positions, when its first row has the position `k`. -/
theorem filter_zipIdx_between (rows : List α) (k a b : Nat) :
    ((rows.zipIdx k).filter fun r => decide (a ≤ r.2 ∧ r.2 < b)).map Prod.fst =
      (rows.drop (a - k)).take (b - max a k) := by
  induction rows generalizing k with
  | nil => simp
  | cons x rows ih =>
    rw [List.zipIdx_cons, List.filter_cons]
    rcases Nat.lt_or_ge k a with hbefore | hfrom
    · have hout : ¬ (a ≤ k ∧ k < b) := by omega
      obtain ⟨d, hd⟩ : ∃ d, a - k = d + 1 := ⟨a - k - 1, by omega⟩
      rw [if_neg (by simpa using hout), ih, hd, List.drop_succ_cons,
        show a - (k + 1) = d by omega, show max a (k + 1) = max a k by omega]
    · rw [Nat.sub_eq_zero_of_le hfrom, List.drop_zero]
      rcases Nat.lt_or_ge k b with hin | hbehind
      · obtain ⟨n, hn⟩ : ∃ n, b - max a k = n + 1 := ⟨b - max a k - 1, by omega⟩
        rw [if_pos (by simpa using And.intro hfrom hin), List.map_cons, ih, hn,
          List.take_succ_cons, show a - (k + 1) = 0 by omega, List.drop_zero,
          show b - max a (k + 1) = n by omega]
      · have hout : ¬ (a ≤ k ∧ k < b) := by omega
        rw [if_neg (by simpa using hout), ih, show b - max a (k + 1) = 0 by omega,
          show b - max a k = 0 by omega, List.take_zero, List.take_zero]

theorem meant_eq (p : Pagination) (rows : List α) :
    p.meant rows = (rows.drop p.first).take p.size := by
  have h := filter_zipIdx_between rows 0 p.first (p.first + p.size)
  rwa [Nat.sub_zero, Nat.max_zero, Nat.add_sub_cancel_left] at h

/-! ## On a database -/

/-- What is relied on of a database that would list these rows, when it is sent numbers as the most
rows and the rows to skip: it skips the one and answers at most the other, and refuses to skip a
negative number of rows. -/
structure Answers (rows : List α) (answer? : Int → Int → Option (List α)) : Prop where
  window : ∀ limit offset : Nat, answer? limit offset = some ((rows.drop offset).take limit)
  refused : ∀ limit offset : Int, offset < 0 → answer? limit offset = none

/-- A database that answers so, and refuses negative limits as well. -/
def plainAnswer? (rows : List α) (limit offset : Int) : Option (List α) :=
  if limit < 0 ∨ offset < 0 then none else some ((rows.drop offset.toNat).take limit.toNat)

theorem answers_plainAnswer? (rows : List α) : Answers rows (plainAnswer? rows) where
  window limit offset := if_neg (by omega)
  refused _ _ hoffset := if_pos (.inr hoffset)

/-- The numbers that a window sends: its size, and its first position read with a sign. -/
theorem sent_eq {w : Window} (hlimit : w.limit.toNat = p.size) (hoffset : w.offset.toNat = p.first)
    (columns : List Database.Column) (table : String) (c : Database.Condition)
    (order : List Database.Sorting) :
    (Database.Statement.select columns table c order (some w)).values =
      c.values ++ [.number p.size, .number (Int.bmod p.first (2 ^ 64))] := by
  have hsigned (n : UInt64) : Database.Statement.signed n = .number (Int.bmod n.toNat (2 ^ 64)) :=
    congrArg Database.Value.number (BitVec.toInt_eq_toNat_bmod n.toBitVec)
  have hsize : Int.bmod (p.size : Int) (2 ^ 64) = p.size := by
    have := p.size_lt
    exact Int.bmod_eq_of_le (by omega) (by omega)
  simp only [Database.Statement.values, Option.map_some, Option.getD_some, hsigned, hoffset, hlimit,
    hsize]

theorem sent_iff (p : Pagination) :
    Int.bmod p.first (2 ^ 64) = (p.first : Int) ↔ p.first < 2 ^ 63 := by
  constructor
  · intro h
    have := Int.bmod_lt (x := p.first) (m := 2 ^ 64) (by decide)
    omega
  · intro h
    exact Int.bmod_eq_of_le (by omega) (by omega)

/-- A database answers a page with the rows that it is meant to show, unless its first position is
read as a negative number: then it refuses. -/
theorem Answers.page {rows : List α} {answer? : Int → Int → Option (List α)}
    (ha : Answers rows answer?) (hfits : p.first < 2 ^ 64) :
    answer? p.size (Int.bmod p.first (2 ^ 64)) =
      if p.first < 2 ^ 63 then some (p.meant rows) else none := by
  rw [meant_eq]
  split
  · next h => rw [(sent_iff p).2 h, ha.window]
  · next h =>
    have hneg : Int.bmod (p.first : Int) (2 ^ 64) = p.first - 2 ^ 64 := by
      rw [← Int.sub_bmod_right]
      exact Int.bmod_eq_of_le (by omega) (by omega)
    rw [hneg, ha.refused _ _ (by omega)]

end Pagination

/-! ## In memory -/

namespace Listing

open Pagination

variable {p : Pagination}

theorem paginate_everyRow (h : p.pageSize = everyRow) (rows : List α) :
    paginate rows (some p) = .ok ⟨rows, some ⟨rows.length, p.page, p.pageSize⟩⟩ := by
  rw [paginate, Option.all_some, if_pos (fits_iff.2 (.inl h)), ofRows, cut, if_pos h]
  rfl

/-- A page shows the rows that it is meant to show, as long as there is a word for its first
position. -/
theorem paginate_eq (h : p.pageSize ≠ everyRow) (hfits : p.first < 2 ^ 64) (rows : List α) :
    paginate rows (some p) = .ok ⟨p.meant rows, some ⟨rows.length, p.page, p.pageSize⟩⟩ := by
  rw [paginate, Option.all_some, if_pos (fits_iff.2 (.inr hfits)), ofRows, cut, if_neg h, ← meant_eq]
  rfl

theorem paginate_eq_error_iff {rows : List α} :
    paginate rows (some p) = .error ⟨⟩ ↔ p.pageSize ≠ everyRow ∧ 2 ^ 64 ≤ p.first := by
  rw [paginate, Option.all_some, ← Nat.not_lt, ← not_or, ← fits_iff]
  split
  · next h => exact iff_of_false nofun fun hno => hno h
  · next h => exact iff_of_true rfl h

/-! ## Pages in a row -/

/-- The first pages of a size, one behind the other. -/
def firstPages (size : Int64) (rows : List α) : Nat → Except Overflow (List α)
  | 0 => .ok []
  | k + 1 => do
    return (← firstPages size rows k) ++ (← paginate rows (some ⟨UInt32.ofNat (k + 1), size⟩)).data

theorem first_succ {k : Nat} (hk : k + 1 < 2 ^ 32) (size : Int64) :
    Pagination.first ⟨UInt32.ofNat (k + 1), size⟩ = k * Pagination.size ⟨1, size⟩ := by
  have hnumber : (UInt32.ofNat (k + 1)).toNat = k + 1 := UInt32.toNat_ofNat_of_lt' hk
  rw [first_eq, hnumber, Nat.max_eq_left (Nat.le_add_left ..), Nat.add_sub_cancel]
  rfl

/-- Every page takes up the listing where the one before it has left off, as long as the first
positions fit. -/
theorem pages {size : Int64} (h : size ≠ everyRow) (rows : List α) {n : Nat} (hn : n < 2 ^ 32)
    (hfits : (n - 1) * Pagination.size ⟨1, size⟩ < 2 ^ 64) :
    firstPages size rows n = .ok (rows.take (n * Pagination.size ⟨1, size⟩)) := by
  induction n with
  | zero => rw [Nat.zero_mul]; rfl
  | succ k ih =>
    have hle : (k - 1) * Pagination.size ⟨1, size⟩ ≤ k * Pagination.size ⟨1, size⟩ :=
      Nat.mul_le_mul_right _ (Nat.sub_le ..)
    rw [Nat.add_sub_cancel] at hfits
    have hpage := paginate_eq (p := ⟨UInt32.ofNat (k + 1), size⟩) h (first_succ hn size ▸ hfits) rows
    rw [meant_eq, first_succ hn] at hpage
    rw [firstPages, ih (by omega) (by omega), hpage, Nat.succ_mul, List.take_add]
    rfl

/-- The page that is reported is the one asked for, and page 0 is page 1. With the size -1 every row
is shown. Otherwise there is a page just if its first position is a machine word. It then shows the
rows at its positions, and the window has exactly these. A database is sent the first position with
a sign: it is asked for the same page just if the position is less than `2 ^ 63`, and refuses any
other. As long as the positions are machine words the pages are pieces of the listing in its order,
and none is left out. -/
theorem paging (rows : List α) (p : Pagination) :
    p.page.toNat = max p.current.toNat 1 ∧
    p.size = (if 0 < p.pageSize then p.pageSize.toInt.toNat else 10) ∧ p.size < 2 ^ 63 ∧
    p.first = (max p.current.toNat 1 - 1) * p.size ∧
    (p.pageSize = everyRow → p.window = .ok none ∧
      paginate rows (some p) = .ok ⟨rows, some ⟨rows.length, p.page, p.pageSize⟩⟩) ∧
    (p.window = .error ⟨⟩ ↔ p.pageSize ≠ everyRow ∧ 2 ^ 64 ≤ p.first) ∧
    (paginate rows (some p) = .error ⟨⟩ ↔ p.pageSize ≠ everyRow ∧ 2 ^ 64 ≤ p.first) ∧
    (p.pageSize ≠ everyRow → p.first < 2 ^ 64 →
      paginate rows (some p) = .ok ⟨p.meant rows, some ⟨rows.length, p.page, p.pageSize⟩⟩ ∧
      (∃ w, p.window = .ok (some w) ∧ w.limit.toNat = p.size ∧ w.offset.toNat = p.first ∧
        ∀ columns table c order,
          (Database.Statement.select columns table c order (some w)).values =
            c.values ++ [.number p.size, .number (Int.bmod p.first (2 ^ 64))]) ∧
      (Int.bmod p.first (2 ^ 64) = (p.first : Int) ↔ p.first < 2 ^ 63) ∧
      ∀ answer?, Answers rows answer? →
        answer? p.size (Int.bmod p.first (2 ^ 64)) =
          if p.first < 2 ^ 63 then some (p.meant rows) else none) ∧
    (∀ n : Nat, p.pageSize ≠ everyRow → n < 2 ^ 32 → (n - 1) * p.size < 2 ^ 64 →
      firstPages p.pageSize rows n = .ok (rows.take (n * p.size))) := by
  refine ⟨p.toNat_page, p.size_eq, p.size_lt, p.first_eq,
    fun h => ⟨window_everyRow h, paginate_everyRow h rows⟩, window_eq_error_iff,
    paginate_eq_error_iff, fun h hfits => ?_, fun n h hn hfits => pages h rows hn hfits⟩
  obtain ⟨w, hw, hlimit, hoffset⟩ := window_eq h hfits
  exact ⟨paginate_eq h hfits rows, ⟨w, hw, hlimit, hoffset, sent_eq hlimit hoffset⟩, p.sent_iff,
    fun answer? ha => ha.page hfits⟩

/-- With `2 ^ 62` rows to a page, the position of the third page, `2 ^ 63`, is sent to a database as
a negative number, which it refuses; in memory the page is empty, as it is meant to be. There is no
word for the position of the fifth page, and the work on it breaks off. -/
theorem far_page_refused :
    let third : Pagination := ⟨3, 4611686018427387904⟩
    let fifth : Pagination := ⟨5, 4611686018427387904⟩
    let rows := [0, 1, 2]
    (third.first = 2 ^ 63 ∧ third.meant rows = [] ∧
      (paginate rows (some third)).toOption.map Listing.data = some [] ∧
      third.window = .ok (some ⟨9223372036854775808, 4611686018427387904⟩) ∧
      (Database.Statement.select [] "roles" .always []
        (some ⟨9223372036854775808, 4611686018427387904⟩)).values =
        [.number (2 ^ 62), .number (-2 ^ 63)] ∧
      Answers rows (plainAnswer? rows) ∧ plainAnswer? rows (2 ^ 62) (-2 ^ 63) = none) ∧
    fifth.first = 2 ^ 64 ∧ fifth.meant rows = [] ∧ fifth.window = .error ⟨⟩ ∧
      paginate rows (some fifth) = .error ⟨⟩ := by
  refine ⟨⟨by decide +kernel, by decide +kernel, by decide +kernel, by decide +kernel,
    by decide +kernel, answers_plainAnswer? _, by decide +kernel⟩, by decide +kernel⟩

end Listing

end AccessAdmin
