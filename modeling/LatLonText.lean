import LatLonText.Geometry.Component
import LatLonText.Geometry.Equality
import LatLonText.Sink
import LatLonText.Sql
import LatLonText.Main
import LatLonText.Proofs.Sink
import LatLonText.Proofs.Unambiguous
import LatLonText.Proofs.Requested
import LatLonText.Proofs.Lines
import LatLonText.Proofs.Planar
import LatLonText.Proofs.Shape
import LatLonText.Proofs.CommandLine
import LatLonText.Proofs.Digits
import LatLonText.Proofs.Sql
import LatLonText.Proofs.FewDigits
import LatLonText.Proofs.FixedText
import LatLonText.Proofs.Numeral
import LatLonText.Proofs.DoubleRounding
import LatLonText.Proofs.DigitBound
import LatLonText.Proofs.TextOrder
import LatLonText.Proofs.DocumentOrder
import LatLonText.Proofs.Marks
import LatLonText.Proofs.Indentation
import LatLonText.Proofs.Settings
import LatLonText.Proofs.Arguments
import LatLonText.Proofs.Blob
import LatLonText.Proofs.Equality
import LatLonText.Proofs.ZeroSigns
import LatLonText.Proofs.Scientific
