import Mathlib.Data.List.Basic

/-! Sliding windows over times: what is recent at a moment, and lists of times, newest first, each
of which came when fewer than `limit` of the earlier ones were recent. -/
namespace Window
variable {width limit t t' : Nat} {times : List Nat}

def recent (width t : Nat) (times : List Nat) : List Nat := times.filter fun s => t - s < width

def within (width start : Nat) (times : List Nat) : List Nat :=
  times.filter fun s => start ≤ s && s < start + width

/-- Each time is the latest so far, and fewer than `limit` of the earlier ones are recent then. -/
def Paced (width limit : Nat) : List Nat → Prop
  | [] => True
  | t :: earlier => (∀ s ∈ earlier, s ≤ t) ∧ (recent width t earlier).length < limit ∧
    Paced width limit earlier

theorem recent_append (more : List Nat) :
    recent width t (times ++ more) = recent width t times ++ recent width t more :=
  List.filter_append _ _

theorem recent_sublist : (recent width t times).Sublist times := List.filter_sublist

/-- What was no longer recent stays so. -/
theorem recent_recent (later : t ≤ t') : recent width t' (recent width t times) = recent width t' times := by
  rw [recent,recent,List.filter_filter]
  apply List.filter_congr
  intro s _
  simp only [Bool.and_eq_left_iff_imp,decide_eq_true_eq]
  omega

theorem within_cons (start : Nat) : within width start (t :: times) =
    if start ≤ t ∧ t < start + width then t :: within width start times else within width start times := by
  simp [within,List.filter_cons]

/-- Whatever shares a window with the latest time is recent then. -/
theorem within_sublist_recent {start : Nat} (inside : t < start + width) :
    (within width start times).Sublist (recent width t times) := by
  apply List.monotone_filter_right
  intro s there
  simp only [Bool.and_eq_true,decide_eq_true_eq] at there ⊢
  omega

/-- No half-open window holds more than `limit` times. -/
theorem within_length_le (paced : Paced width limit times) (start : Nat) :
    (within width start times).length ≤ limit := by
  induction times with
  | nil => exact Nat.zero_le _
  | cons t earlier ih =>
    obtain ⟨-,few,paced⟩ := paced
    rw [within_cons]
    split
    · rename_i inside
      have short : (within width start earlier).length ≤ (recent width t earlier).length :=
        (within_sublist_recent inside.2).length_le
      rw [List.length_cons]
      omega
    · exact ih paced

end Window
