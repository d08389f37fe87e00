import DroidcamWhip.MJpegDecode
import DroidcamWhip.Lib.Int32
import DroidcamWhip.Lib.Raster
import Mathlib.Algebra.Group.Nat.Even
import Mathlib.Tactic.Ring

/-!
The planes that `MJpegDecoder::decode_video` lays out in `frameBuf`, and the bytes
that TurboJPEG writes into them: it pads an odd width or height to the next even
one, the layout does not.
-/

namespace DroidcamWhip

/-! ## The layout -/

/-- `Yuv420Size`, the size of `frameBuf`. -/
def yuv420Size (h : TjImage) : UInt64 :=
  let ySize := h.width * h.height
  (ySize * 3 / 2).toInt64.toUInt64

/-- What TurboJPEG writes for 4:2:0: `2 * ⌈h/2⌉` rows of `2 * ⌈w/2⌉` bytes of luma
to plane 0, half as many rows and bytes to the planes 1 and 2. -/
def tjPlane (f : ObsFrame) (w h : Nat) (i : Fin 8) : Raster :=
  let scale := if i = 0 then 2 else 1
  { base := (f.data i).toNat
    stride := (f.linesize i).toNat
    width := scale * ((w + 1) / 2)
    rows := scale * ((h + 1) / 2) }

/-- The planes of a 4:2:0 frame. -/
def tjPlanes : List (Fin 8) := [0, 1, 2]

/-- `n` is an `int`. -/
def FitsInt (n : Nat) : Prop := n < 2 ^ 31

/-- The computations of the layout for a `w` by `h` picture do not overflow, and
all that TurboJPEG writes to the planes of the frame lies in the `size` bytes at
`frameBuf`, no byte in two planes. -/
structure PlanesFit (f : ObsFrame) (w h : Nat) (frameBuf size : UInt64) : Prop where
  ySize_fits : FitsInt (w * h)
  size_fits : FitsInt (w * h * 3)
  inside : ∀ i ∈ tjPlanes,
    (tjPlane f w h i).bytes ⊆ Set.Ico frameBuf.toNat (frameBuf.toNat + size.toNat)
  disjoint : tjPlanes.Pairwise fun i j =>
    Disjoint (tjPlane f w h i).bytes (tjPlane f w h j).bytes

theorem planesFit_congr {f g : ObsFrame} (hfg : tjPlane f = tjPlane g) (w h : Nat)
    (frameBuf size : UInt64) : PlanesFit f w h frameBuf size ↔ PlanesFit g w h frameBuf size := by
  constructor
  · rintro ⟨hy, hs, hin, hdis⟩
    exact ⟨hy, hs, hfg ▸ hin, hfg ▸ hdis⟩
  · rintro ⟨hy, hs, hin, hdis⟩
    exact ⟨hy, hs, hfg ▸ hin, hfg ▸ hdis⟩

/-! ## The planes of a header -/

section Header

variable {hd : TjImage} {w h : Nat}

theorem yuv420Size_toNat (hw : hd.width.Holds w) (hh : hd.height.Holds h)
    (hfit : FitsInt (w * h * 3)) :
    (yuv420Size hd).toNat = w * h * 3 / 2 := by
  have hy : w * h < 2 ^ 31 := by unfold FitsInt at hfit; omega
  have h3 : (3 : Int32).Holds 3 := rfl
  have h2 : (2 : Int32).Holds 2 := rfl
  exact (((hw.mul hh hy).mul h3 hfit).div h2).toUInt64

theorem tjPlane_luma (hw : hd.width.Holds w) (h : Nat) (f : ObsFrame) (block : UInt64) :
    tjPlane (f.setHeader hd block) w h 0 =
      ⟨block.toNat, w, 2 * ((w + 1) / 2), 2 * ((h + 1) / 2)⟩ := by
  simp [tjPlane, ObsFrame.setHeader, ObsFrame.setPlane, hw.toUInt32]

theorem tjPlane_u (hw : hd.width.Holds w) (hh : hd.height.Holds h) (f : ObsFrame)
    (block : UInt64) (hfit : FitsInt (w * h)) :
    tjPlane (f.setHeader hd block) w h 1 =
      ⟨(block.toNat + w * h) % 2 ^ 64, w / 2, (w + 1) / 2, (h + 1) / 2⟩ := by
  simp [tjPlane, ObsFrame.setHeader, ObsFrame.setPlane, hw.half.toUInt32,
    (hw.mul hh hfit).toUInt64]

theorem tjPlane_v (hw : hd.width.Holds w) (hh : hd.height.Holds h) (f : ObsFrame)
    (block : UInt64) (hfit : FitsInt (w * h)) :
    tjPlane (f.setHeader hd block) w h 2 =
      ⟨(block.toNat + w * h + w * h / 4) % 2 ^ 64, w / 2, (w + 1) / 2, (h + 1) / 2⟩ := by
  have h4 : (4 : Int32).Holds 4 := rfl
  simp [tjPlane, ObsFrame.setHeader, ObsFrame.setPlane, hw.half.toUInt32,
    (hw.mul hh hfit).toUInt64, ((hw.mul hh hfit).div h4).toUInt64]

/-- An odd height makes a row of luma, an odd width a byte of it, that lies where
plane 1 begins. -/
theorem plane_u_mem_luma (hw : hd.width.Holds w) (f : ObsFrame) (block : UInt64) (hw0 : 0 < w)
    (hh0 : 0 < h) (hodd : ¬ (Even w ∧ Even h)) :
    block.toNat + h * w ∈ (tjPlane (f.setHeader hd block) w h 0).bytes := by
  rw [tjPlane_luma hw]
  obtain ⟨b, rfl | rfl⟩ := Nat.even_or_odd' h
  · obtain ⟨a, rfl | rfl⟩ := Nat.even_or_odd' w
    · exact absurd ⟨even_two_mul a, even_two_mul b⟩ hodd
    · have hrows : 2 * ((2 * b + 1) / 2) = 2 * b := by omega
      have hwidth : 2 * ((2 * a + 1 + 1) / 2) = 2 * a + 2 := by omega
      rw [hrows, hwidth]
      exact Raster.next_row_mem (r := ⟨_, 2 * a + 1, 2 * a + 2, 2 * b⟩) (Nat.lt_succ_self _) hh0
  · have hrows : 2 * b + 1 < 2 * ((2 * b + 1 + 1) / 2) := by omega
    have hwidth : 0 < 2 * ((w + 1) / 2) := by omega
    exact Raster.row_start_mem (r := ⟨_, w, _, _⟩) hrows hwidth

/-- For an even width and height the planes are packed one behind the other. -/
theorem planesFit_of_even {a b : Nat} (hw : hd.width.Holds (2 * a)) (hh : hd.height.Holds (2 * b))
    (f : ObsFrame) (block : UInt64) (hpos : 0 < a * b) (hfit : FitsInt (2 * a * (2 * b) * 3))
    (hblock : block.toNat + (yuv420Size hd).toNat ≤ 2 ^ 64) :
    PlanesFit (f.setHeader hd block) (2 * a) (2 * b) block (yuv420Size hd) := by
  have harea : 2 * a * (2 * b) = 4 * (a * b) := by ring
  have hfit' : FitsInt (2 * a * (2 * b)) := by unfold FitsInt at *; omega
  have hsize : (yuv420Size hd).toNat = 6 * (a * b) := by
    rw [yuv420Size_toNat hw hh hfit, harea]
    omega
  have ha : (2 * a + 1) / 2 = a := by omega
  have hb : (2 * b + 1) / 2 = b := by omega
  have haa : 2 * a / 2 = a := by omega
  have hluma : tjPlane (f.setHeader hd block) (2 * a) (2 * b) 0 =
      ⟨block.toNat, 2 * a, 2 * a, 2 * b⟩ := by
    rw [tjPlane_luma hw, ha, hb]
  have hu : tjPlane (f.setHeader hd block) (2 * a) (2 * b) 1 =
      ⟨block.toNat + 4 * (a * b), a, a, b⟩ := by
    rw [tjPlane_u hw hh f block hfit', harea, ha, hb, haa, Nat.mod_eq_of_lt (by omega)]
  have hv : tjPlane (f.setHeader hd block) (2 * a) (2 * b) 2 =
      ⟨block.toNat + 5 * (a * b), a, a, b⟩ := by
    rw [tjPlane_v hw hh f block hfit', harea, ha, hb, haa, Nat.mod_eq_of_lt (by omega)]
    congr 1
    omega
  have hrows : 2 * b * (2 * a) = 4 * (a * b) := by ring
  have hcrows : b * a = a * b := Nat.mul_comm b a
  constructor
  · exact hfit'
  · exact hfit
  · simp only [tjPlanes, List.forall_mem_cons, hluma, hu, hv]
    refine ⟨?_, ?_, ?_, by simp⟩
    all_goals exact Raster.bytes_subset_of_le rfl (by simp) (by simp only; omega)
  · simp only [tjPlanes, List.pairwise_cons, List.forall_mem_cons, hluma, hu, hv]
    refine ⟨⟨?_, ?_, by simp⟩, ⟨?_, by simp⟩, by simp⟩
    all_goals exact Raster.disjoint_of_le rfl rfl (by simp only; omega)

/-- In planes that fit, luma ends before plane 1. -/
theorem even_of_planesFit (hw : hd.width.Holds w) (hh : hd.height.Holds h) (f : ObsFrame)
    (block : UInt64) (hw0 : 0 < w) (hh0 : 0 < h)
    (hfit : PlanesFit (f.setHeader hd block) w h block (yuv420Size hd)) : Even w ∧ Even h := by
  by_contra hodd
  have hluma := plane_u_mem_luma hw f block hw0 hh0 hodd
  have hu := tjPlane_u hw hh f block hfit.ySize_fits
  have hbase : (tjPlane (f.setHeader hd block) w h 1).base ∈
      (tjPlane (f.setHeader hd block) w h 1).bytes := by
    apply Raster.base_mem <;> rw [hu] <;> simp only <;> omega
  have hin := hfit.inside 1 (by decide) hbase
  -- plane 1 is in the block, so its address has not wrapped
  have hend : (tjPlane (f.setHeader hd block) w h 1).base = block.toNat + h * w := by
    have hlow := hin.1
    have hfits := hfit.ySize_fits
    have hblock := block.toNat_lt
    rw [hu] at hlow ⊢
    rw [Nat.mul_comm h w]
    unfold FitsInt at hfits
    simp only at hlow ⊢
    omega
  have hdis : Disjoint (tjPlane (f.setHeader hd block) w h 0).bytes
      (tjPlane (f.setHeader hd block) w h 1).bytes :=
    List.rel_of_pairwise_cons hfit.disjoint (by decide)
  rw [hend] at hbase
  exact Set.disjoint_left.mp hdis hluma hbase

end Header

namespace MJpegDecoder

/-- The planes of the frame are those of the header that has been read. -/
theorem decodeVideo_planes {d : MJpegDecoder} (hd : d.mSubsamp = 0) (f : ObsFrame) (k : Nat)
    {a : TjAnswer} {hdr : TjImage} (ha : a.header = some hdr) (h420 : hdr.subsamp = tjSamp420) :
    tjPlane (d.decodeVideo f k a).2.frame = tjPlane (f.setHeader hdr a.block) := by
  have hfull : ∀ g : ObsFrame, tjPlane g.setFullRange = tjPlane g := by
    intro g
    unfold ObsFrame.setFullRange
    split <;> rfl
  have hfin : ∀ g : ObsFrame, tjPlane g.finish = tjPlane g := hfull
  have hrun : (d.decodeVideo f k a).2 = decompress (f.setHeader hdr a.block) k a := by
    simp [decodeVideo, hd, ha, h420]
  rw [hrun, decompress]
  cases a.written with
  | none => exact hfull _
  | some _ => exact hfin _

/-- **The layout fits exactly the even sizes whose triple area is an `int`.** -/
theorem planesFit_iff {d : MJpegDecoder} (hd : d.mSubsamp = 0) (f : ObsFrame) (k : Nat)
    {a : TjAnswer} {hdr : TjImage} {w h : Nat} (ha : a.header = some hdr)
    (h420 : hdr.subsamp = tjSamp420) (hw : hdr.width.Holds w) (hh : hdr.height.Holds h)
    (hw1 : 1 ≤ w ∧ w ≤ 65535) (hh1 : 1 ≤ h ∧ h ≤ 65535)
    (hblock : a.block.toNat + (yuv420Size hdr).toNat ≤ 2 ^ 64) :
    PlanesFit (d.decodeVideo f k a).2.frame w h a.block (yuv420Size hdr) ↔
      Even w ∧ Even h ∧ 3 * (w * h) ≤ 2 ^ 31 - 1 := by
  rw [planesFit_congr (decodeVideo_planes hd f k ha h420)]
  constructor
  · intro hfit
    obtain ⟨hwe, hhe⟩ := even_of_planesFit hw hh f a.block hw1.1 hh1.1 hfit
    have hsize := hfit.size_fits
    unfold FitsInt at hsize
    exact ⟨hwe, hhe, by omega⟩
  · rintro ⟨hwe, hhe, hsize⟩
    obtain ⟨x, rfl⟩ := hwe.two_dvd
    obtain ⟨y, rfl⟩ := hhe.two_dvd
    have hx : 0 < x := by omega
    have hy : 0 < y := by omega
    have hfits : FitsInt (2 * x * (2 * y) * 3) := by unfold FitsInt; omega
    exact planesFit_of_even hw hh f a.block (Nat.mul_pos hx hy) hfits hblock

theorem planesFit_iff_vga :
    PlanesFit (new.decodeVideo .blank 0 ⟨some ⟨640, 480, tjSamp420⟩, 4096, none⟩).2.frame
        640 480 4096 (yuv420Size ⟨640, 480, tjSamp420⟩) ↔
      Even 640 ∧ Even 480 ∧ 3 * (640 * 480) ≤ 2 ^ 31 - 1 :=
  planesFit_iff (d := new) rfl .blank 0 (a := ⟨some ⟨640, 480, tjSamp420⟩, 4096, none⟩) rfl rfl
    (by decide) (by decide) (by decide) (by decide) (by decide)

/-- Luma of a picture 641 wide writes over the start of plane 1. -/
theorem not_planesFit_odd :
    ¬ PlanesFit (new.decodeVideo .blank 0 ⟨some ⟨641, 480, tjSamp420⟩, 4096, none⟩).2.frame
        641 480 4096 (yuv420Size ⟨641, 480, tjSamp420⟩) := by
  intro hfit
  rw [planesFit_congr (decodeVideo_planes (d := new) rfl .blank 0 rfl rfl)] at hfit
  exact absurd (@even_of_planesFit ⟨641, 480, tjSamp420⟩ _ _ (by decide) (by decide) .blank
    4096 (by decide) (by decide) hfit).1 (by decide)

end MJpegDecoder

end DroidcamWhip
