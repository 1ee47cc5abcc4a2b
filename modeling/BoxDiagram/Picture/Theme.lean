/-!
# Themes: palettes by number
-/

namespace BoxDiagram

structure Palette where
  background : String
  fill : String
  containerFill : String
  stroke : String
  text : String
  edge : String
  deriving DecidableEq, Repr

namespace Palette

/-- The palettes with the numbers they are known by: neutral, grey, flagship, clear for the colour
blind, mauve, terminal. -/
def numbered : List (Int × Palette) :=
  [(0, ⟨"#FFFFFF", "#F7F8FE", "#E3E9FD", "#0D32B2", "#0A0F25", "#0D32B2"⟩),
    (1, ⟨"#FFFFFF", "#F1F4F5", "#DEE1EB", "#676C7E", "#0A0F25", "#676C7E"⟩),
    (3, ⟨"#FFFFFF", "#EDF0FD", "#C5C9F1", "#000E3D", "#000E3D", "#000E3D"⟩),
    (8, ⟨"#FFFFFF", "#FDF6E4", "#E7E9EE", "#010E31", "#010E31", "#010E31"⟩),
    (200, ⟨"#1E1E2E", "#313244", "#45475A", "#CBA6F7", "#CDD6F4", "#CBA6F7"⟩),
    (300, ⟨"#FFFFFF", "#FFFFFF", "#FFFFFF", "#000410", "#000410", "#000410"⟩)]

def ofTheme? (theme : Int) : Option Palette := numbered.lookup theme

end Palette

end BoxDiagram
