import HostPorts.Manifest.Definition

/-!
The command line: prints the definitions that a cluster needs for the host port kinds.
-/

def main : IO Unit := IO.print HostPorts.manifests
