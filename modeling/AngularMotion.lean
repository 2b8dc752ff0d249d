import AngularMotion.Exact
import AngularMotion.Main
import AngularMotion.Requests
import AngularMotion.Proofs.Quaternion.Hamilton
import AngularMotion.Proofs.Quaternion.Sandwich
import AngularMotion.Proofs.Quaternion.Rotation
import AngularMotion.Proofs.Quaternion.AxisAngle
import AngularMotion.Proofs.Quaternion.Drift
import AngularMotion.Proofs.Hermite.Difference
import AngularMotion.Proofs.Hermite.Horner
import AngularMotion.Proofs.Hermite.Conditions
import AngularMotion.Proofs.Rodrigues.Inverse
import AngularMotion.Proofs.Kinematics
import AngularMotion.Proofs.Rodrigues.Derivatives
import AngularMotion.Proofs.Coordinates.Offset
import AngularMotion.Proofs.Coordinates.Acceleration
import AngularMotion.Proofs.Coordinates.Group
import AngularMotion.Proofs.Coordinates.Flow
import AngularMotion.Proofs.Coordinates.Rate
import AngularMotion.Proofs.Coordinates.Closeness
import AngularMotion.Proofs.Ephemeris.Queries
import AngularMotion.Proofs.Ephemeris.Order
import AngularMotion.Proofs.Ephemeris.Neighbors
import AngularMotion.Proofs.Interpolation.Attempt
import AngularMotion.Proofs.Interpolation.Curve
import AngularMotion.Proofs.Interpolation.Search
import AngularMotion.Proofs.Interpolation.Avoidance
import AngularMotion.Proofs.Interpolation.Derivative
import AngularMotion.Proofs.Interpolation.Reproduction
import AngularMotion.Proofs.Interpolation.Signs
import AngularMotion.Proofs.Interpolation.Antipodal
import AngularMotion.Proofs.Interpolation.Spin
import AngularMotion.Proofs.Interpolation.Trusted
import AngularMotion.Proofs.Quaternion.Frame
import AngularMotion.Proofs.Coordinates.Frame
import AngularMotion.Proofs.Interpolation.Symmetry
import AngularMotion.Proofs.Interpolation.Frame
import AngularMotion.Proofs.Interpolation.Clock
import AngularMotion.Proofs.Interpolation.Revolution
import AngularMotion.Proofs.Expression
import AngularMotion.Proofs.Playback
import AngularMotion.Proofs.Hermite.Rows
import AngularMotion.Proofs.Hermite.Reordering
import AngularMotion.Proofs.Rodrigues.RoundTrip
