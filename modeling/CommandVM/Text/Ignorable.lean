/-!
# Characters that are shown as nothing

The characters with the Unicode 17.0 property `Default_Ignorable_Code_Point`: where a display does
not support them, nothing stands for them. Most are formats, marks or code points that are kept
free; the fillers of Hangul syllables are letters.
-/

namespace CommandVM.Text

/-- Code point intervals of the ignorable characters, in order. -/
def ignorable : List (Nat × Nat) :=
  [(0xad, 0xad), (0x34f, 0x34f), (0x61c, 0x61c), (0x115f, 0x1160), (0x17b4, 0x17b5),
    (0x180b, 0x180f), (0x200b, 0x200f), (0x202a, 0x202e), (0x2060, 0x206f), (0x3164, 0x3164),
    (0xfe00, 0xfe0f), (0xfeff, 0xfeff), (0xffa0, 0xffa0), (0xfff0, 0xfff8), (0x1bca0, 0x1bca3),
    (0x1d173, 0x1d17a), (0xe0000, 0xe0fff)]

def isIgnorable (c : Char) : Bool :=
  ignorable.any fun (first, last) => first ≤ c.toNat && c.toNat ≤ last

end CommandVM.Text
