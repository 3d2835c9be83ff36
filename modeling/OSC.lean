import OSC.Address
import OSC.Blob
import OSC.Brackets
import OSC.Client
import OSC.Conversion
import OSC.Dispatcher
import OSC.Forwarder
import OSC.Proofs.BundleElements
import OSC.Proofs.BundleRoundTrip
import OSC.Proofs.Clocks
import OSC.Proofs.Cuts
import OSC.Proofs.Encodings
import OSC.Proofs.Forwardings
import OSC.Proofs.Histories
import OSC.Proofs.Nesting
import OSC.Proofs.Placements
import OSC.Proofs.Readings
import OSC.Proofs.Renewals
import OSC.Proofs.RoundTrip
import OSC.Proofs.Saturation
import OSC.Proofs.Sendings
import OSC.Proofs.Strict.RawReading
import OSC.Proofs.Strict.Safety
import OSC.Proofs.Strict.Tables
import OSC.Proofs.Strict.Writing
import OSC.Proofs.Tilings
import OSC.Server
import OSC.Text.Quoted
import OSC.Writer
